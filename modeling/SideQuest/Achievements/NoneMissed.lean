import SideQuest.Achievements.Quiet

-- The listeners of the event bus miss no achievement: when they have heard all the events of
-- requests that were served one at a time, nobody has come to an achievement that is locked.

namespace SideQuest

open ReadCommitted QuestsService AchievementsService InvitesService AuthService
  FriendshipsService StreakRolloverService
open Presence (acceptedOf)

-- What the listeners do.
section Listeners

variable {userId : Id} {w : World}

theorem isSome_user_alone {α : Type} (p : Request α) (h : (w.users.find? userId).isSome) :
    ((p.alone w).2.users.find? userId).isSome := by
  let there (db : World) : Prop := (db.users.find? userId).isSome
  have hkeep (db : World) (wr : Write) (hdb : there db) : there (db.apply wr) :=
    isSome_user_view hdb [wr]
  exact Prog.alone_keeps hkeep p h

theorem quietly_oneByOne {definitions : List Achievement} (h : Ready userId definitions w) :
    Quietly w (oneByOne (after userId) definitions w) := by
  have huses : (evaluateEach userId definitions).Uses quiet := by
    clear h
    induction definitions with
    | nil => trivial
    | cons achievement rest ih => exact (uses_evaluateOne userId achievement).bind fun _ => ih
  have hquiet := quietly_alone huses w
  rwa [evaluateEach_alone h] at hquiet

-- Every round unlocks what is due, and the rounds after it bring nobody closer.
theorem unlocked_oneByOne {definitions : List Achievement} (h : Ready userId definitions w) :
    let w' := oneByOne (after userId) definitions w
    ∀ a ∈ definitions, a.type ≠ .XP_THRESHOLD → Due userId w' a → Unlocked userId a.id w' := by
  induction definitions generalizing w with
  | nil => exact fun _ ha => absurd ha List.not_mem_nil
  | cons achievement rest ih =>
      intro w' a ha htype hdue
      rcases List.mem_cons.mp ha with rfl | hrest
      · obtain ⟨user, huser⟩ := h.user
        have hspared := (quietly_oneByOne h.after).spared userId
        have hsettled := settled_after huser (h.defined a List.mem_cons_self)
        refine hspared.unlocked a.id (hsettled.resolve_right fun hlocked => ?_)
        have hearned := (hspared.due htype hdue).1
        rw [hlocked.1] at hearned
        cases hearned
      · exact ih h.after a hrest htype hdue

theorem evaluateForUser_noneMissed (h : (w.users.find? userId).isSome) :
    ∃ w', (evaluateForUser userId).alone w = (.ok (), w') ∧ NoneMissed userId w' := by
  refine ⟨_, evaluateForUser_alone h, fun achievement ha htype hdue => ?_⟩
  rw [(achievements_loop (ready_rows h)).1] at ha
  exact unlocked_oneByOne (ready_rows h) achievement ha htype hdue

theorem uses_listener (event : AppEvent) : (listener event).Uses quiet := by
  cases event with
  | questCompleted userId => exact uses_evaluateForUser userId
  | questLocationCheckedIn userId => exact uses_evaluateForUser userId
  | friendRequestAccepted requesterId addresseeId =>
      exact (uses_evaluateForUser requesterId).bind fun _ => uses_evaluateForUser addresseeId
  | _ => trivial

-- A listener leaves nothing undone for those whom its event names.
theorem listener_noneMissed {event : AppEvent}
    (hknown : ∀ userId, Hears event userId → (w.users.find? userId).isSome)
    (hears : Hears event userId) : NoneMissed userId ((listener event).alone w).2 := by
  have hone {id : Id} (hid : (w.users.find? id).isSome) :
      NoneMissed id ((evaluateForUser id).alone w).2 := by
    obtain ⟨w', hrun, hnone⟩ := evaluateForUser_noneMissed hid
    rwa [hrun]
  cases event with
  | questCompleted id =>
      obtain rfl := List.mem_singleton.mp hears
      exact hone (hknown userId hears)
  | questLocationCheckedIn id =>
      obtain rfl := List.mem_singleton.mp hears
      exact hone (hknown userId hears)
  | friendRequestAccepted requesterId addresseeId friendshipId =>
      obtain ⟨w₁, hrun, hfirst⟩ :=
        evaluateForUser_noneMissed (hknown requesterId List.mem_cons_self)
      have haddressee : (w₁.users.find? addresseeId).isSome := by
        have hthere := hknown addresseeId (List.mem_cons_of_mem _ List.mem_cons_self)
        have hkept := isSome_user_alone (evaluateForUser requesterId) hthere
        rwa [hrun] at hkept
      obtain ⟨w₂, hrun', hsecond⟩ := evaluateForUser_noneMissed haddressee
      have hspared : Spared requesterId w₁ w₂ := by
        have hquiet := quietly_alone (uses_evaluateForUser addresseeId) w₁
        rw [hrun'] at hquiet
        exact hquiet.spared requesterId
      have hboth : (listener (.friendRequestAccepted requesterId addresseeId friendshipId)).alone w =
          (.ok (), w₂) := (Prog.alone_bind hrun).trans hrun'
      rw [hboth]
      rcases List.mem_pair.mp hears with rfl | rfl
      · exact hspared.noneMissed hfirst
      · exact hsecond
  | _ => exact absurd hears List.not_mem_nil

end Listeners

-- The database enforces that the users of a friendship exist.
section ForeignKey

variable {w : World}

theorem exec_creates_friendship {β : Type} {st : Stmt β} {b : β} {ws : List Write}
    (h : Stmt.exec st w = .ok (b, ws)) {row : Friendship} (hrow : .friendshipCreate row ∈ ws) :
    (w.users.find? row.requesterId).isSome ∧ (w.users.find? row.addresseeId).isSome := by
  cases st <;> simp only [Stmt.exec, ask, fail, Option.isNone_iff_eq_none] at h <;>
    grind [Option.isSome_iff_ne_none]

theorem FriendsExist.apply (h : FriendsExist w) {wr : Write}
    (hwr : ∀ row, wr = .friendshipCreate row →
      (w.users.find? row.requesterId).isSome ∧ (w.users.find? row.addresseeId).isSome) :
    FriendsExist (w.apply wr) := by
  have hkeep {id : Id} (hid : (w.users.find? id).isSome) : ((w.apply wr).users.find? id).isSome :=
    isSome_user_view hid [wr]
  suffices hold : ∀ f ∈ (w.apply wr).friendships.rows,
      (w.users.find? f.requesterId).isSome ∧ (w.users.find? f.addresseeId).isSome from
    fun f hf => ⟨hkeep (hold f hf).1, hkeep (hold f hf).2⟩
  intro f hf
  cases wr with
  | friendshipCreate row =>
      rcases Table.mem_of_mem_insert hf with hold | rfl
      · exact h f hold
      · exact hwr f rfl
  | friendshipUpdate id d =>
      obtain ⟨row, hrow, rfl⟩ := List.mem_map.mp hf
      have hsame := h row hrow
      split <;> exact hsame
  | friendshipDelete row => exact h f (List.mem_filter.mp hf).1
  | _ => exact h f hf

theorem FriendsExist.view (h : FriendsExist w) {ws : List Write}
    (hws : ∀ row, .friendshipCreate row ∈ ws →
      (w.users.find? row.requesterId).isSome ∧ (w.users.find? row.addresseeId).isSome) :
    FriendsExist (view Stmt w ws) := by
  induction ws generalizing w with
  | nil => exact h
  | cons wr ws ih =>
      rw [view_cons]
      refine ih (h.apply fun row hrow => hws row (hrow ▸ List.mem_cons_self)) fun row hrow => ?_
      obtain ⟨hrequester, haddressee⟩ := hws row (List.mem_cons_of_mem _ hrow)
      exact ⟨isSome_user_view hrequester [wr], isSome_user_view haddressee [wr]⟩

-- Whatever a request does.
theorem FriendsExist.alone (h : FriendsExist w) {α : Type} (p : Request α) :
    FriendsExist (p.alone w).2 := by
  let any : {β : Type} → Stmt β → Prop := fun _ => True
  have huses : p.Uses any := Prog.uses_of_forall (fun _ => trivial) p
  exact huses.alone FriendsExist (fun _ _ _ _ _ hdb he => hdb.view fun _ hrow =>
    exec_creates_friendship he hrow) h

end ForeignKey

-- The requests that the listeners react to.
section Reporting

variable {w w' : World} {userId questId : Id}

theorem Reports.then_quiet (h : Reports w w') {α : Type} {p : Request α} (hp : p.Uses quiet) :
    Reports w (p.alone w').2 := by
  obtain ⟨news, hevents, hknown, hspared⟩ := h.events
  have hquiet := quietly_alone hp w'
  obtain ⟨more, hmore, hunheard⟩ := hquiet.events
  refine ⟨⟨news ++ more, by rw [hmore, hevents, List.append_assoc], fun event he u hears => ?_,
    fun u => ?_⟩⟩
  · rcases List.mem_append.mp he with hold | hnew
    · exact isSome_user_alone p (hknown event hold u hears)
    · rw [Hears, hunheard event hnew] at hears
      exact absurd hears List.not_mem_nil
  · rcases hspared u with h | ⟨event, he, hears⟩
    · exact Or.inl (h.trans (hquiet.spared u))
    · exact Or.inr ⟨event, List.mem_append_left _ he, hears⟩

theorem hears_levelUps {event : AppEvent} {id u : Id} {previousLevel newLevel : ℕ}
    (he : event ∈ levelUps id previousLevel newLevel) : ¬Hears event u := by
  unfold levelUps at he
  split at he
  · rw [List.mem_singleton.mp he]
    exact List.not_mem_nil
  · cases he

theorem hears_finishEvents {quest : QuestWithLocations} {user : User} {now : Time}
    {event : AppEvent} {u : Id} (he : event ∈ finishEvents userId questId quest user now)
    (hears : Hears event u) : u = userId := by
  rcases List.mem_cons.mp he with rfl | hlevel
  · exact List.mem_singleton.mp hears
  · exact absurd hears (hears_levelUps hlevel)

-- Finishing a quest brings nobody else any closer.
theorem harmless_finishing (host : Host) {u : Id} (hu : u ≠ userId) {quest : QuestWithLocations}
    {proof : Option CompletionProof} {row : QuestCompletion} {user : User} {now : Time} :
    ∀ wr ∈ [claimWrite userId questId quest proof row now,
      rewardWrite host userId quest user now], Harmless u wr := by
  intro wr hwr
  rcases List.mem_pair.mp hwr with rfl | rfl <;> exact fun he => absurd he.symm hu

theorem complete_reports (host : Host) (userId questId : Id) (proof : Option CompletionProof)
    (w : World) : Reports w ((complete host userId questId proof).alone w).2 := by
  rcases complete_cases host userId questId proof w with
    ⟨_, hsame⟩ | ⟨_, quest, user, row, _, huser, hafter⟩
  · rw [hsame]
    exact .refl w
  · rw [hafter]
    refine reports_writes (by simp [Write.announced]) (fun event he u hears => ?_) fun u => ?_
    · rw [hears_finishEvents he hears]
      exact isSome_user_view (Option.isSome_of_eq_some huser) _
    · by_cases hu : u = userId
      · exact Or.inr ⟨_, List.mem_cons_self, List.mem_singleton.mpr hu⟩
      · exact Or.inl (spared_view (harmless_finishing host hu))

theorem harmless_checkInWrites (w : World) (locationId : Id) (body : QuestCheckInBody) (u : Id) :
    ∀ wr ∈ checkInWrites w userId questId locationId body, Harmless u wr := by
  simp [checkInWrites, Harmless]

theorem checkInLocation_reports (host : Host) (userId questId locationId : Id)
    (body : QuestCheckInBody) (w : World) :
    Reports w ((checkInLocation host userId questId locationId body).alone w).2 := by
  rcases checkInLocation_cases host userId questId locationId body w with
    ⟨_, hsame⟩ | ⟨l, rfl, hopen⟩
  · rw [hsame]
    exact .refl w
  · have hthere (ws : List Write) : ((view Stmt w ws).users.find? userId).isSome :=
      isSome_user_view hopen.user_found ws
    have hsilent : ∀ wr ∈ checkInWrites w userId questId l.id body, wr.announced = none := by
      simp [checkInWrites, Write.announced]
    by_cases hcount : (w.visitsAt userId questId).length + 1 < (w.locationsOf questId).length
    · rw [checkInLocation_alone_step hopen hcount]
      show Reports w (view Stmt w (checkInWrites w userId questId l.id body ++
        [AppEvent.questLocationCheckedIn userId questId l.id].map .emit))
      refine reports_writes hsilent (fun event he u hears => ?_) fun u => Or.inl ?_
      · rw [List.mem_singleton.mp he] at hears
        rw [List.mem_singleton.mp hears]
        exact hthere _
      · exact spared_view (harmless_checkInWrites w l.id body u)
    · obtain ⟨quest, row, user, _, huser, hrun⟩ :=
        checkInLocation_alone_last hopen (Nat.le_of_not_lt hcount)
      rw [hrun]
      refine reports_writes (by simp [checkInWrites, Write.announced])
        (fun event he u hears => ?_) fun u => ?_
      · rcases List.mem_append.mp he with hfinish | hlast
        · rw [hears_finishEvents hfinish hears]
          exact hthere _
        · rw [List.mem_singleton.mp hlast] at hears
          rw [List.mem_singleton.mp hears]
          exact hthere _
      · by_cases hu : u = userId
        · refine Or.inr ⟨_, List.mem_append_left _ List.mem_cons_self, List.mem_singleton.mpr hu⟩
        · refine Or.inl (spared_view fun wr hwr => ?_)
          rcases List.mem_append.mp hwr with hvisit | hfinish
          · exact harmless_checkInWrites w l.id body u wr hvisit
          · exact harmless_finishing host hu wr hfinish

theorem accept_reports (hw : FriendsExist w) (friendshipId : Id) :
    Reports w ((accept userId friendshipId).alone w).2 := by
  show Prog.Ends (fun _ w' => Reports w w') (accept userId friendshipId) w
  have hsame := Reports.refl w
  unfold accept
  refine Prog.ends_query (fun _ => rfl) (Prog.ends_expect hsame fun f hf => ?_)
  refine Prog.ends_require hsame fun _ => Prog.ends_require hsame fun _ => ?_
  refine Prog.ends_query (fun _ => rfl) (Prog.ends_call (fun _ => hsame) fun updated ws he => ?_)
  obtain ⟨row, _, _, rfl⟩ := exec_friendshipUpdateStatus he
  obtain ⟨hrequester, haddressee⟩ := hw f (Table.mem_of_find? hf)
  let accepting : Write := .friendshipUpdate friendshipId ⟨.ACCEPTED, w.clock⟩
  show Reports w (view Stmt w ([accepting] ++
    [AppEvent.friendRequestAccepted f.requesterId f.addresseeId friendshipId].map .emit))
  refine reports_writes (by simp [accepting, Write.announced]) (fun event he u hears => ?_)
    fun u => ?_
  · rw [List.mem_singleton.mp he] at hears
    rcases List.mem_pair.mp hears with rfl | rfl
    · exact isSome_user_view hrequester _
    · exact isSome_user_view haddressee _
  · by_cases hnamed : u = f.requesterId ∨ u = f.addresseeId
    · exact Or.inr ⟨_, List.mem_singleton_self _, List.mem_pair.mpr hnamed⟩
    · rw [not_or] at hnamed
      exact Or.inl (spared_accept hf ⟨Ne.symm hnamed.1, Ne.symm hnamed.2⟩ w.clock)

-- A redemption brings the inviter and the invitee closer.
theorem still_redemptionWrites {inviteeId newId : Id} {invite : Invite} {inviter invitee : User} :
    ∀ wr ∈ redemptionWrites w inviteeId newId invite inviter invitee, wr.announced = none ∧
      ∀ u, u ≠ invite.inviterId → u ≠ inviteeId → Harmless u wr := by
  intro wr hwr
  rcases List.mem_cons.mp hwr with rfl | hrest
  · exact ⟨rfl, fun _ _ _ => trivial⟩
  · rcases List.mem_append.mp hrest with hbefriend | hpaid
    · unfold befriendWrites at hbefriend
      split at hbefriend
      · cases hbefriend
      · rw [List.mem_singleton.mp hbefriend]
        refine ⟨rfl, fun u hinviter hinvitee => ?_⟩
        simp [Harmless, acceptedOf, referralFriendship, hinviter.symm, hinvitee.symm]
    · rcases List.mem_pair.mp hpaid with rfl | rfl <;>
        exact ⟨rfl, fun u _ _ _ days hdays => by cases hdays⟩

theorem hears_referralEvents {out : ReferralTxOutcome} {event : AppEvent} {u : Id}
    (he : event ∈ referralEvents out) (hears : Hears event u) :
    u = out.inviterId ∨ u = out.inviteeId := by
  rcases List.mem_cons.mp he with rfl | hlevels
  · exact List.mem_pair.mp hears
  · rcases List.mem_append.mp hlevels with hlevel | hlevel <;>
      exact absurd hears (hears_levelUps hlevel)

theorem register_reports (host : Host) (dto : RegisterDto) (ids : FreshIds) (w : World) :
    Reports w ((register host dto ids).alone w).2 := by
  rcases register_needs host dto ids w with ⟨_, hsame⟩ | ⟨hfree, hreferral⟩
  · rw [hsame]
    exact .refl w
  · let joining : Write := .userCreate (newUser host dto ids.user)
    have hjoins (u : Id) : Harmless u joining := rfl
    cases htoken : dto.token host with
    | none =>
        rw [register_alone_plain hfree htoken]
        refine Reports.then_quiet ?_ (uses_issueTokens host _)
        show Reports w (view Stmt w ([joining] ++ ([] : List AppEvent).map .emit))
        refine reports_writes (by simp [joining, Write.announced])
          (fun event he => absurd he List.not_mem_nil) fun u => Or.inl (spared_apply (hjoins u))
    | some token =>
        obtain ⟨invite, inviter, hredeems⟩ := hreferral token htoken
        rw [register_alone_referral hfree htoken hredeems]
        refine Reports.then_quiet ?_ (uses_issueTokens host _)
        let redeeming := referralWrites host dto ids w invite inviter
        show Reports w (view Stmt w ((joining :: redeeming) ++
          (referralEvents (referralOutcome host dto ids w invite inviter)).map .emit))
        have hnamed (u : Id) (hu : u = invite.inviterId ∨ u = ids.user) :
            ((created host dto ids w).users.find? u).isSome := by
          rcases hu with rfl | rfl
          · exact Option.isSome_of_eq_some hredeems.inviter_found
          · exact Option.isSome_of_eq_some hredeems.invitee_found
        refine reports_writes ?_ (fun event he u hears => ?_) fun u => ?_
        · intro wr hwr
          rcases List.mem_cons.mp hwr with rfl | hwr
          · rfl
          · exact (still_redemptionWrites wr hwr).1
        · exact isSome_user_view (hnamed u (hears_referralEvents he hears)) redeeming
        · by_cases hu : u = invite.inviterId ∨ u = ids.user
          · exact Or.inr ⟨_, List.mem_cons_self, List.mem_pair.mpr hu⟩
          · rw [not_or] at hu
            refine Or.inl (spared_view fun wr hwr => ?_)
            rcases List.mem_cons.mp hwr with rfl | hwr
            · exact hjoins u
            · exact (still_redemptionWrites wr hwr).2 u hu.1 hu.2

end Reporting

theorem AppRequest.reports {host : AuthHost} {p : Request Unit} (hp : AppRequest host p) {w : World}
    (hw : FriendsExist w) : Reports w (p.alone w).2 := by
  have hquiet {α : Type} {p : Request α} (huses : p.Uses quiet) : Reports w (p.alone w).2 :=
    (quietly_alone huses w).reports
  have hvoid {α : Type} {p : Request α} (h : Reports w (p.alone w).2) :
      Reports w (p.void.alone w).2 := Prog.alone_void p w ▸ h
  cases hp with
  | quest h =>
      cases h with
      | start => exact hquiet (uses_start _ _)
      | complete proof => exact hvoid (complete_reports _ _ _ proof w)
      | checkInLocation locationId body => exact hvoid (checkInLocation_reports _ _ _ _ body w)
  | evaluateForUser userId => exact hquiet (uses_evaluateForUser userId)
  | friendship h =>
      cases h with
      | request => exact hvoid (hquiet (uses_request _ _ _))
      | accept => exact hvoid (accept_reports hw _)
      | block => exact hvoid (hquiet (uses_block _ _ _))
      | remove => exact hquiet (uses_remove _ _)
  | invite h =>
      cases h with
      | createInvite => exact hvoid (hquiet (uses_createInvite _ _ _ _ _))
      | cancel => exact hquiet (uses_cancel _ _)
      | register dto ids => exact hvoid (register_reports _ dto ids w)
  | login dto => exact hvoid (hquiet (uses_login host dto))
  | refresh refreshToken => exact hvoid (hquiet (uses_refresh host refreshToken))
  | logout userId => exact hquiet (uses_logout userId)
  | resetStaleStreaksUtc => exact hquiet uses_resetStaleStreaksUtc

-- What happens next: a request is served, a listener hears of a waiting event, in any
-- order, or time passes.
inductive Turn (host : AuthHost) : Type 1 where
  | serve (p : Request Unit) (h : AppRequest host p)
  | hear (i : ℕ)
  | wait (elapsed : ℕ)

-- The new events that have a listener. The bus drops all others.
def newsOf (w w' : World) : List AppEvent :=
  (w'.events.drop w.events.length).filter fun event => event.evaluates ≠ []

def Turn.after {host : AuthHost} : Turn host → Desk World AppEvent → Desk World AppEvent
  | .serve p _, d => d.change (p.alone d.data).2 (newsOf d.data (p.alone d.data).2)
  | .hear i, d =>
      match d.waiting[i]? with
      | some event =>
          d.hear i ((listener event).alone d.data).2
            (newsOf d.data ((listener event).alone d.data).2)
      | none => d
  | .wait elapsed, d => d.change (Backend.happen Stmt elapsed d.data) []

theorem Reports.news {w w' : World} (h : Reports w w') :
    (∀ event ∈ newsOf w w', ∀ userId, Hears event userId → (w'.users.find? userId).isSome) ∧
      ∀ userId, Spared userId w w' ∨ ∃ event ∈ newsOf w w', Hears event userId := by
  obtain ⟨news, hevents, hknown, hspared⟩ := h.events
  have hnews : newsOf w w' = news.filter fun event => event.evaluates ≠ [] := by
    rw [newsOf, hevents, List.drop_left]
  rw [hnews]
  refine ⟨fun event he => hknown event (List.mem_filter.mp he).1, fun userId => ?_⟩
  refine (hspared userId).imp_right fun ⟨event, he, hears⟩ => ⟨event, ?_, hears⟩
  exact List.mem_filter.mpr ⟨he, decide_eq_true (List.ne_nil_of_mem hears)⟩

-- Between two turns.
structure Upheld (d : Desk World AppEvent) : Prop where
  friendsExist : FriendsExist d.data
  known : ∀ event ∈ d.waiting, ∀ userId, Hears event userId → (d.data.users.find? userId).isSome
  awaited : d.Awaited Hears NoneMissed

theorem Upheld.after {host : AuthHost} {d : Desk World AppEvent} (h : Upheld d) (turn : Turn host) :
    Upheld (turn.after d) := by
  cases turn with
  | serve p hp =>
      obtain ⟨hknown, hspared⟩ := (hp.reports h.friendsExist).news
      refine ⟨h.friendsExist.alone p, fun event he userId hears => ?_, ?_⟩
      · rcases List.mem_append.mp he with hold | hnew
        · exact isSome_user_alone p (h.known event hold userId hears)
        · exact hknown event hnew userId hears
      · exact h.awaited.change fun userId => (hspared userId).imp_left Spared.noneMissed
  | hear i =>
      cases hi : d.waiting[i]? with
      | none =>
          simp only [Turn.after, hi]
          exact h
      | some event =>
          simp only [Turn.after, hi]
          have hquiet := quietly_alone (uses_listener event) d.data
          have hevent := h.known event (List.mem_of_getElem? hi)
          refine ⟨h.friendsExist.alone _, fun event' he userId hears => ?_, ?_⟩
          · rcases List.mem_append.mp he with hold | hnew
            · have hwaiting := List.mem_of_mem_eraseIdx hold
              exact isSome_user_alone _ (h.known event' hwaiting userId hears)
            · exact hquiet.reports.news.1 event' hnew userId hears
          · exact h.awaited.hear hi (fun _ hears => listener_noneMissed hevent hears)
              fun userId => (hquiet.spared userId).noneMissed
  | wait elapsed =>
      refine ⟨h.friendsExist, fun event he => ?_, ?_⟩
      · rw [Turn.after, Desk.change, List.append_nil] at he
        exact h.known event he
      · refine h.awaited.change fun userId => Or.inl fun hw => ?_
        exact Spared.noneMissed { Spared.refl userId d.data with } hw

-- Whatever requests are served, and whenever the listeners hear of them: whoever has come
-- to an achievement has it unlocked or is about to be evaluated. When no event waits any
-- more, nobody has missed one.
theorem noneMissed_of_turns (host : AuthHost) {w : World} (hw : ∀ userId, NoneMissed userId w)
    (hfriends : FriendsExist w) (turns : List (Turn host)) :
    let d := oneByOne Turn.after turns ⟨w, []⟩
    d.Awaited Hears NoneMissed ∧ (d.waiting = [] → ∀ userId, NoneMissed userId d.data) := by
  have hinit : Upheld ⟨w, []⟩ :=
    ⟨hfriends, fun _ he => absurd he List.not_mem_nil, fun userId => Or.inl (hw userId)⟩
  have hturns : EachMeets Turn.after (fun _ _ => True) turns ⟨w, []⟩ :=
    eachMeets_of_forall (fun _ _ => trivial) turns _
  have hupheld : Upheld (oneByOne Turn.after turns ⟨w, []⟩) :=
    oneByOne_inv (fun turn _ _ h _ => h.after turn) hinit hturns
  exact ⟨hupheld.awaited, hupheld.awaited.all_well⟩

-- An achievement for the first quest.
def firstQuest : Achievement where
  id := 1
  slug := "first-quest"
  type := .QUEST_COUNT
  criteria := .obj [("minQuests", .num 1)]
  xpBonus := 50

def withFirstQuest : World := { onTheTrail with achievements := Table.empty.insert firstQuest }

def finishing : Turn .plain :=
  .serve (complete AuthHost.plain.toHost 1 1 none).void (.quest (.complete none))

-- Before the listener has heard of the quest, its achievement is locked.
theorem noneMissed_first_quest :
    let d (turns : List (Turn .plain)) := oneByOne Turn.after turns ⟨withFirstQuest, []⟩
    ((d [finishing]).waiting = [.questCompleted 1 1 100 0] ∧ ¬NoneMissed 1 (d [finishing]).data) ∧
      (∀ u, NoneMissed u (d [finishing, .hear 0]).data) ∧
        Unlocked 1 1 (d [finishing, .hear 0]).data := by
  intro d
  have hinit : ∀ u, NoneMissed u withFirstQuest :=
    noneMissed_of_untouched (by decide +kernel) rfl (by decide +kernel)
  have hfriends : FriendsExist withFirstQuest := fun _ hf => absurd hf List.not_mem_nil
  refine ⟨⟨by decide +kernel, fun h => ?_⟩, ?_, by decide +kernel⟩
  · have hdue : Due 1 (d [finishing]).data firstQuest := by decide +kernel
    have hlocked : ¬Unlocked 1 1 (d [finishing]).data := by decide +kernel
    have hrow : firstQuest ∈ (d [finishing]).data.achievements.rows := List.mem_singleton_self _
    exact hlocked (h firstQuest hrow (by decide) hdue)
  · exact (noneMissed_of_turns .plain hinit hfriends [finishing, .hear 0]).2 (by decide +kernel)

end SideQuest
