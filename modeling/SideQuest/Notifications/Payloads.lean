import SideQuest.Model.Notifications

-- What the listeners store is what a notification shows, field by field.

namespace SideQuest

section Fields

-- The fields that are there, as an object lists them.
def present (fields : List (String × Option Json)) : List (String × Json) :=
  fields.filterMap fun f => f.2.map (f.1, ·)

variable {fields : List (String × Option Json)} {name : String}

theorem find?_present_none (h : name ∉ fields.map Prod.fst) :
    (present fields).find? (fun f => f.1 = name) = none := by
  simp only [List.find?_eq_none, present, List.mem_filterMap]
  rintro _ ⟨⟨other, v⟩, hmem, hv⟩
  obtain ⟨x, -, rfl⟩ := Option.map_eq_some_iff.mp hv
  have hne : other ≠ name := fun he => h (List.mem_map.mpr ⟨_, hmem, he⟩)
  simpa using hne

-- Names are used once, so that a field is found under its own name and nowhere else.
theorem get_present (hnd : (fields.map Prod.fst).Nodup) {v : Option Json}
    (hmem : (name, v) ∈ fields) : (Json.obj (present fields)).get name = v := by
  induction fields with
  | nil => cases hmem
  | cons f fs ih =>
    obtain ⟨hfresh, hrest⟩ := List.nodup_cons.mp hnd
    obtain ⟨other, u⟩ := f
    by_cases he : other = name
    · subst he
      have hu : u = v := by
        rcases List.mem_cons.mp hmem with h | h
        · simp_all
        · exact absurd (List.mem_map.mpr ⟨_, h, rfl⟩) hfresh
      subst hu
      cases u with
      | none => simpa [present, Json.get] using find?_present_none hfresh
      | some x => simp [present, Json.get]
    · have hfs : (name, v) ∈ fs := by
        rcases List.mem_cons.mp hmem with h | h
        · simp_all
        · exact h
      cases u with
      | none => simpa [present, Json.get] using ih hrest hfs
      | some x => simpa [present, Json.get, he] using ih hrest hfs

theorem getString_eq {value : Json} {s : Option String} (h : value.get name = s.map .str) :
    value.getString name = s := by
  cases s <;> simp [Json.getString, h]

theorem getNumber_eq {value : Json} {q : Option ℚ} (h : value.get name = q.map .num) :
    value.getNumber name = q := by
  cases q <;> simp [Json.getNumber, h]

end Fields

namespace NotificationDataDto

open NotificationsService

-- The fields of the response that are set, each under its name.
def fields (dto : NotificationDataDto) : List (String × Option Json) :=
  [("questId", dto.questId.map .str), ("xpAwarded", dto.xpAwarded.map .num),
    ("achievementId", dto.achievementId.map .str), ("slug", dto.slug.map .str),
    ("friendshipId", dto.friendshipId.map .str), ("previousLevel", dto.previousLevel.map .num),
    ("newLevel", dto.newLevel.map .num), ("fromUser", dto.fromUser.map participantToJson)]

def toJson (dto : NotificationDataDto) : Json := .obj (present dto.fields)

variable (dto : NotificationDataDto)

theorem get_toJson {name : String} {v : Option Json} (hmem : (name, v) ∈ dto.fields) :
    dto.toJson.get name = v := by
  refine get_present ?_ hmem
  simp only [fields, List.map_cons, List.map_nil]
  decide

end NotificationDataDto

namespace NotificationsService

@[simp]
theorem parseFromUser_participantToJson (p : FromUser) :
    parseFromUser (participantToJson p) = some p := by
  obtain ⟨id, username, displayName, avatarUrl, level⟩ := p
  cases displayName <;> cases avatarUrl <;> rfl

-- A response is read back from its own JSON.
theorem parse_toJson {dto : NotificationDataDto} (hne : dto ≠ {}) :
    parseNotificationDataJson (some dto.toJson) = some dto := by
  have hstring (name : String) (s : Option String) (h : (name, s.map Json.str) ∈ dto.fields) :
      dto.toJson.getString name = s := getString_eq (dto.get_toJson h)
  have hnumber (name : String) (q : Option ℚ) (h : (name, q.map Json.num) ∈ dto.fields) :
      dto.toJson.getNumber name = q := getNumber_eq (dto.get_toJson h)
  have huser : (dto.toJson.get "fromUser").bind parseFromUser = dto.fromUser := by
    rw [dto.get_toJson (v := dto.fromUser.map participantToJson) (by simp [NotificationDataDto.fields])]
    cases dto.fromUser <;> simp
  have hout : ({
      questId := dto.toJson.getString "questId"
      xpAwarded := dto.toJson.getNumber "xpAwarded"
      achievementId := dto.toJson.getString "achievementId"
      slug := dto.toJson.getString "slug"
      friendshipId := dto.toJson.getString "friendshipId"
      previousLevel := dto.toJson.getNumber "previousLevel"
      newLevel := dto.toJson.getNumber "newLevel"
      fromUser := (dto.toJson.get "fromUser").bind parseFromUser } : NotificationDataDto) = dto := by
    rw [hstring "questId" dto.questId, hnumber "xpAwarded" dto.xpAwarded,
      hstring "achievementId" dto.achievementId, hstring "slug" dto.slug,
      hstring "friendshipId" dto.friendshipId, hnumber "previousLevel" dto.previousLevel,
      hnumber "newLevel" dto.newLevel, huser]
    all_goals simp [NotificationDataDto.fields]
  simp only [parseNotificationDataJson, Option.bind_some, hout, if_neg hne]

-- What is parsed has a field.
theorem ne_empty_of_parse {value : Option Json} {dto : NotificationDataDto}
    (h : parseNotificationDataJson value = some dto) : dto ≠ {} := by
  obtain ⟨v, -, h⟩ := Option.bind_eq_some_iff.mp h
  dsimp only at h
  split_ifs at h with hout
  obtain rfl := Option.some.inj h
  exact hout

-- To parse the parsed output again changes nothing, whatever the column holds.
theorem parse_parse (value : Option Json) :
    parseNotificationDataJson ((parseNotificationDataJson value).map NotificationDataDto.toJson) =
      parseNotificationDataJson value := by
  cases h : parseNotificationDataJson value with
  | none => rfl
  | some dto => exact parse_toJson (ne_empty_of_parse h)

@[simp]
theorem parseStoredNotificationType_text (type : NotificationType) :
    parseStoredNotificationType type.text = type := by
  cases type <;> decide

-- The response of a notification whose data is a response's JSON.
theorem send_data {input : SendInput} {dto : NotificationDataDto} (hne : dto ≠ {})
    (hdata : input.data = some dto.toJson) (id : String) (now : Time) :
    (send input id now).type = input.type ∧ (send input id now).data = some dto := by
  refine ⟨parseStoredNotificationType_text input.type, ?_⟩
  show parseNotificationDataJson input.data = some dto
  rw [hdata]
  exact parse_toJson hne

section Listeners

variable (numberText : ℚ → String) (loadParticipantSummary : String → Option FromUser)
  (payload : Json)

-- What the notification of an event has to show, from the event's own fields.
def NotifyingEvent.shown : NotifyingEvent → NotificationDataDto
  | .QuestCompleted => {
      questId := payload.getString "questId"
      xpAwarded := payload.getNumber "xpAwarded" }
  | .AchievementUnlocked => {
      achievementId := payload.getString "achievementId"
      slug := payload.getString "achievementSlug" }
  | .FriendRequestSent => {
      friendshipId := payload.getString "friendshipId"
      fromUser := (payload.getString "requesterId").bind loadParticipantSummary }
  | .FriendRequestAccepted => {
      friendshipId := payload.getString "friendshipId"
      fromUser := (payload.getString "addresseeId").bind loadParticipantSummary }
  | .LevelUp => {
      previousLevel := payload.getNumber "previousLevel"
      newLevel := payload.getNumber "newLevel" }
  | .BusinessQuestApproved => { questId := payload.getString "questId" }

-- A listener stores what is to be shown and nothing else.
def Stores (event : NotifyingEvent) : Prop :=
  ∃ input, listener numberText loadParticipantSummary event payload = some input ∧
    input.data = some (event.shown loadParticipantSummary payload).toJson ∧
    event.shown loadParticipantSummary payload ≠ {}

variable {payload}

attribute [local simp] NotifyingEvent.shown NotificationDataDto.toJson NotificationDataDto.fields present
  listener friendData

theorem stores_questCompleted (h : isQuestCompleted payload) :
    Stores numberText loadParticipantSummary payload .QuestCompleted := by
  simp only [isQuestCompleted, Bool.and_eq_true, Option.isSome_iff_exists] at h
  obtain ⟨⟨⟨userId, huser⟩, questId, hquest⟩, xpAwarded, hxp⟩ := h
  refine ⟨_, by simp [onQuestCompleted, huser, hquest, hxp]; rfl, ?_, ?_⟩
  · simp [hquest, hxp]
  · simp [hquest]

theorem stores_achievementUnlocked (h : isAchievementUnlocked payload) :
    Stores numberText loadParticipantSummary payload .AchievementUnlocked := by
  simp only [isAchievementUnlocked, Bool.and_eq_true, Option.isSome_iff_exists] at h
  obtain ⟨⟨⟨userId, huser⟩, achievementId, hid⟩, slug, hslug⟩ := h
  refine ⟨_, by simp [onAchievementUnlocked, huser, hid, hslug]; rfl, ?_, ?_⟩
  · simp [hid, hslug]
  · simp [hid]

theorem stores_friendRequestSent (h : isFriendRequestSent payload) :
    Stores numberText loadParticipantSummary payload .FriendRequestSent := by
  simp only [isFriendRequestSent, Bool.and_eq_true, Option.isSome_iff_exists] at h
  obtain ⟨⟨⟨requesterId, hfrom⟩, addresseeId, hto⟩, friendshipId, hid⟩ := h
  refine ⟨_, by simp [onFriendRequestSent, hfrom, hto, hid]; rfl, ?_, ?_⟩
  · -- There may be no such user.
    cases hload : loadParticipantSummary requesterId <;> simp [hfrom, hid, hload]
  · simp [hid]

theorem stores_friendRequestAccepted (h : isFriendRequestAccepted payload) :
    Stores numberText loadParticipantSummary payload .FriendRequestAccepted := by
  simp only [isFriendRequestAccepted, isFriendRequestSent, Bool.and_eq_true,
    Option.isSome_iff_exists] at h
  obtain ⟨⟨⟨requesterId, hto⟩, addresseeId, hfrom⟩, friendshipId, hid⟩ := h
  refine ⟨_, by simp [onFriendRequestAccepted, hfrom, hto, hid]; rfl, ?_, ?_⟩
  · cases hload : loadParticipantSummary addresseeId <;> simp [hfrom, hid, hload]
  · simp [hid]

theorem stores_levelUp (h : isLevelUp payload) :
    Stores numberText loadParticipantSummary payload .LevelUp := by
  simp only [isLevelUp, Bool.and_eq_true, Option.isSome_iff_exists] at h
  obtain ⟨⟨⟨userId, huser⟩, previousLevel, hprevious⟩, newLevel, hnew⟩ := h
  refine ⟨_, by simp [onLevelUp, huser, hprevious, hnew]; rfl, ?_, ?_⟩
  · simp [hprevious, hnew]
  · simp [hnew]

theorem stores_businessQuestApproved (h : isBusinessQuestApproved payload) :
    Stores numberText loadParticipantSummary payload .BusinessQuestApproved := by
  simp only [isBusinessQuestApproved, Bool.and_eq_true, Option.isSome_iff_exists] at h
  obtain ⟨⟨userId, huser⟩, questId, hquest⟩ := h
  refine ⟨_, by simp [onBusinessQuestApproved, huser, hquest]; rfl, ?_, ?_⟩
  · simp [hquest]
  · simp [hquest]

theorem stores {event : NotifyingEvent} (h : event.guard payload) :
    Stores numberText loadParticipantSummary payload event := by
  cases event with
  | QuestCompleted => exact stores_questCompleted _ _ h
  | AchievementUnlocked => exact stores_achievementUnlocked _ _ h
  | FriendRequestSent => exact stores_friendRequestSent _ _ h
  | FriendRequestAccepted => exact stores_friendRequestAccepted _ _ h
  | LevelUp => exact stores_levelUp _ _ h
  | BusinessQuestApproved => exact stores_businessQuestApproved _ _ h

end Listeners

-- A payload that passes the guard of its event is stored and shown with its own fields, and
-- any JSON at all is parsed to what parses to itself.
theorem payloads_survive :
    (∀ (numberText : ℚ → String) (loadParticipantSummary : String → Option FromUser)
      (event : NotifyingEvent) (payload : Json), event.guard payload = true →
      ∃ input, listener numberText loadParticipantSummary event payload = some input ∧
        input.data = some (event.shown loadParticipantSummary payload).toJson ∧
        ∀ id now, (send input id now).type = input.type ∧
          (send input id now).data = some (event.shown loadParticipantSummary payload)) ∧
    ∀ value : Option Json,
      parseNotificationDataJson ((parseNotificationDataJson value).map NotificationDataDto.toJson) =
        parseNotificationDataJson value := by
  refine ⟨fun numberText load event payload hguard => ?_, parse_parse⟩
  obtain ⟨input, hlistener, hdata, hne⟩ := stores numberText load hguard
  exact ⟨input, hlistener, hdata, send_data hne hdata⟩

-- A friend request from a user without a picture.
theorem payloads_survive_request : ∃ input,
    listener toString (fun id => some ⟨id, "ada", some "Ada", none, 3⟩) .FriendRequestSent
      (.obj [("requesterId", .str "u1"), ("addresseeId", .str "u2"), ("friendshipId", .str "f1")]) =
        some input ∧
      (send input "n1" 0).data = some {
        friendshipId := some "f1"
        fromUser := some ⟨"u1", "ada", some "Ada", none, 3⟩ } := by
  obtain ⟨input, hlistener, -, hsend⟩ := payloads_survive.1 toString
    (fun id => some ⟨id, "ada", some "Ada", none, 3⟩) .FriendRequestSent
    (.obj [("requesterId", .str "u1"), ("addresseeId", .str "u2"), ("friendshipId", .str "f1")])
    (by decide)
  exact ⟨input, hlistener, (hsend "n1" 0).2⟩

end NotificationsService

end SideQuest
