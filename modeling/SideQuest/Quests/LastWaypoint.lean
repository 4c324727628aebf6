import SideQuest.Quests.OncePerStart
import SideQuest.Quests.Waypoints
import SideQuest.Rewards.Awards

-- The last check-in of a quest completes it, exactly once, whatever runs beside it.

namespace SideQuest

open ReadCommitted

namespace QuestsService

-- A quest with waypoints that the user has started, at none of which he has checked in.
structure JustStarted (w : World) (userId questId : Id) (quest : Quest) : Prop where
  quest_found : w.quests.find? questId = some quest
  waypoints : 1 ≤ (w.locationsOf questId).length
  started : (w.completions.find? (userId, questId)).map QuestCompletion.status = some .STARTED
  unvisited : ∀ c ∈ w.checkIns.rows, c.userId = userId →
    c.questId ≠ questId ∧ ∀ l ∈ w.locationsOf questId, c.locationId ≠ l.id

-- The requests that may run: check-ins of this user at this quest, and whatever
-- concerns another user or another quest.
def WaypointRequest (host : Host) (userId questId : Id) (p : Request Unit) : Prop :=
  (∃ locationId body, p = (checkInLocation host userId questId locationId body).void) ∨
  ∃ u q, (u, q) ≠ (userId, questId) ∧ QuestRequest host u q p

-- The quest is completed when all its waypoints are visited, and paid for then.
structure PaidWhenVisited (w : World) (userId questId : Id) (quest : Quest)
    (s : Store World Write) : Prop where
  completed_iff : Completed userId questId s.db ↔
    ∀ l ∈ w.locationsOf questId, (s.db.checkIns.find? (userId, l.id)).isSome
  finalized : s.wal.countP (finalizes userId questId) =
    if Completed userId questId s.db then 1 else 0
  xp : s.db.xpOf userId = w.xpOf userId +
    awardedIn w userId (s.wal.filter fun entry => !finalizes userId questId entry) +
    if Completed userId questId s.db then quest.xpReward else 0

-- A check-in of the user at one of the quest's locations is a check-in at the quest.
def NamesQuest (userId questId : Id) (w : World) : Prop :=
  ∀ c ∈ w.checkIns.rows, c.userId = userId → ∀ l, w.questLocations.find? c.locationId = some l →
    l.questId = questId → c.questId = questId

structure LastWaypointInv (w : World) (first : List Id) (userId questId : Id) (quest : Quest)
    (s : Store World Write) : Prop where
  quest_found : s.db.quests.find? questId = some quest
  locations_eq : s.db.questLocations = w.questLocations
  visits : VisitsAt first userId questId s.db
  names : NamesQuest userId questId s.db
  completed_iff : Completed userId questId s.db ↔
    (w.locationsOf questId).length ≤ (s.db.visitsAt userId questId).length
  finalized : s.wal.countP (finalizes userId questId) =
    if Completed userId questId s.db then 1 else 0
  xp : s.db.xpOf userId = w.xpOf userId +
    awardedIn w userId (s.wal.filter fun entry => !finalizes userId questId entry) +
    if Completed userId questId s.db then quest.xpReward else 0

variable {w : World} {first : List Id} {userId questId : Id} {quest : Quest}
  {s : Store World Write}

-- What one more commit must establish.
theorem LastWaypointInv.commit (h : LastWaypointInv w first userId questId quest s) (me : ℕ)
    {ws : List Write} (hvisits : VisitsAt first userId questId (view Stmt s.db ws))
    (hnames : NamesQuest userId questId (view Stmt s.db ws))
    (hiff : Completed userId questId (view Stmt s.db ws) ↔
      (w.locationsOf questId).length ≤ ((view Stmt s.db ws).visitsAt userId questId).length)
    (hcompleted : Completed userId questId (view Stmt s.db ws) ↔
      finalizes userId questId (me, ws) = true ∨ Completed userId questId s.db)
    (hopen : finalizes userId questId (me, ws) = true →
      ¬Completed userId questId s.db ∧ awarded w userId ws = quest.xpReward)
    (hxp : (view Stmt s.db ws).xpOf userId = s.db.xpOf userId + awarded w userId ws) :
    LastWaypointInv w first userId questId quest (s.commit Stmt me ws) := by
  cases ws with
  | nil => exact h
  | cons wr ws =>
      have hsame (hf : ¬finalizes userId questId (me, wr :: ws) = true) :
          Completed userId questId (view Stmt s.db (wr :: ws)) ↔ Completed userId questId s.db := by
        rw [hcompleted, or_iff_right hf]
      refine ⟨?_, ?_, hvisits, hnames, hiff, ?_, ?_⟩
      · rw [Store.commit_db, view_quests]
        exact h.quest_found
      · rw [Store.commit_db, view_questLocations]
        exact h.locations_eq
      · rw [Store.commit_wal_cons, List.countP_append, List.countP_singleton, h.finalized,
          Store.commit_db]
        by_cases hf : finalizes userId questId (me, wr :: ws) = true
        · rw [if_neg (hopen hf).1, if_pos hf, if_pos (hcompleted.mpr (Or.inl hf))]
        · simp only [hsame hf, hf, if_false, Bool.false_eq_true, Nat.add_zero]
      · rw [Store.commit_wal_cons, List.filter_append, Store.commit_db, hxp, h.xp]
        by_cases hf : finalizes userId questId (me, wr :: ws) = true
        · rw [if_neg (hopen hf).1, if_pos (hcompleted.mpr (Or.inl hf)), (hopen hf).2]
          simp [hf]
        · simp only [hsame hf, awardedIn, List.filter_singleton, hf, Bool.not_false, cond_true,
            List.map_append, List.sum_append, List.map_cons, List.map_nil, List.sum_cons,
            List.sum_nil]
          ring

-- Commits for another user or another quest.
theorem LastWaypointInv.commit_elsewhere (h : LastWaypointInv w first userId questId quest s)
    (me : ℕ) {ws : List Write}
    (hrow : (view Stmt s.db ws).completions.find? (userId, questId) =
      s.db.completions.find? (userId, questId))
    (hvisits : (view Stmt s.db ws).visitsAt userId questId = s.db.visitsAt userId questId)
    (hnames : NamesQuest userId questId (view Stmt s.db ws))
    (hfinalizes : finalizes userId questId (me, ws) = false)
    (hxp : (view Stmt s.db ws).xpOf userId = s.db.xpOf userId + awarded w userId ws) :
    LastWaypointInv w first userId questId quest (s.commit Stmt me ws) := by
  have hsame : Completed userId questId (view Stmt s.db ws) ↔ Completed userId questId s.db := by
    rw [Completed, Completed, hrow]
  apply h.commit me ?_ hnames ?_ ?_ ?_ hxp
  · refine h.visits.congr ?_ hvisits (view_questLocations s.db ws)
    rw [World.visitArray, World.visitArray, hrow]
  · rw [hsame, hvisits]
    exact h.completed_iff
  · rw [hsame, hfinalizes, or_iff_right Bool.false_ne_true]
  · exact fun hf => absurd (hfinalizes.symm.trans hf) Bool.false_ne_true

theorem NamesQuest.view_of_checkIns (h : NamesQuest userId questId w) {ws : List Write}
    (hcheckIns : (view Stmt w ws).checkIns = w.checkIns) :
    NamesQuest userId questId (view Stmt w ws) := by
  rw [NamesQuest, hcheckIns, view_questLocations]
  exact h

theorem NamesQuest.checkIn (h : NamesQuest userId questId w) {row : QuestLocationCheckIn}
    (hfree : w.checkIns.find? row.key = none) {l : QuestLocation}
    (hlocation : w.questLocations.find? row.locationId = some l) (hof : l.questId = row.questId) :
    NamesQuest userId questId (w.apply (.checkInCreate row)) := by
  intro c hc huser l' hl' hl'of
  simp only [World.apply, Table.rows_insert hfree, List.mem_append, List.mem_singleton] at hc
  rcases hc with hc | rfl
  · exact h c hc huser l' hl' hl'of
  · have hsame : l = l' := Option.some.inj (hlocation.symm.trans hl')
    rw [← hof, hsame, hl'of]

theorem LastWaypointInv.visitsAt_of_same_row {s' : Store World Write}
    (h : LastWaypointInv w first userId questId quest s)
    (h' : LastWaypointInv w first userId questId quest s')
    (hrow : s'.db.completions.find? (userId, questId) = s.db.completions.find? (userId, questId))
    (hsome : (s'.db.completions.find? (userId, questId)).isSome) :
    s'.db.visitsAt userId questId = s.db.visitsAt userId questId := by
  obtain ⟨row, hfound⟩ := Option.isSome_iff_exists.mp hsome
  have harray' := h'.visits.array row.checkedInLocationIds (by rw [World.visitArray, hfound]; rfl)
  have harray := h.visits.array row.checkedInLocationIds
    (by rw [World.visitArray, ← hrow, hfound]; rfl)
  exact List.append_cancel_left (harray'.symm.trans harray)

theorem LastWaypointInv.locationsOf_eq (h : LastWaypointInv w first userId questId quest s) :
    s.db.locationsOf questId = w.locationsOf questId := by
  rw [World.locationsOf, h.locations_eq, World.locationsOf]

abbrev lastWaypointContract (w : World) (first : List Id) (userId questId : Id) (quest : Quest) :
    Contract Stmt World Write :=
  .ofInv (LastWaypointInv w first userId questId quest) Guard.none

theorem LastWaypointInv.names_checkIn {me : ℕ} {u q locationId : Id} {body : QuestCheckInBody}
    {s s₁ s' : Store World Write} (h : LastWaypointInv w first userId questId quest s')
    (t : CheckingIn (lastWaypointContract w first userId questId quest).rules me u q locationId
      body s s₁)
    (hlocated : Located (lastWaypointContract w first userId questId quest).rules q locationId)
    (hsame : ∀ l ∈ locksOf Stmt t.writes, Lock.same l s₁.db s'.db) :
    NamesQuest userId questId (view Stmt s'.db t.writes) := by
  obtain ⟨l, hlocation, hof⟩ := hlocated.found (fun _ h => LastWaypointInv.locations_eq h) h
  exact h.names.checkIn (t.still_unvisited hsame) hlocation hof

-- Requests for another user or another quest.
theorem questCommits_elsewhere (me : ℕ) (host : Host) {u q : Id}
    (hne : (u, q) ≠ (userId, questId)) :
    QuestCommits (lastWaypointContract w first userId questId quest).rules me host u q where
  emits s e h := by
    refine ⟨LastWaypointInv.commit_elsewhere h me rfl rfl (h.names.view_of_checkIns rfl) rfl ?_,
      trivial⟩
    simp [Write.award, World.xpOf, World.apply]
  again s row now h _ := by
    refine ⟨LastWaypointInv.commit_elsewhere h me ?_ rfl (h.names.view_of_checkIns rfl) ?_ ?_,
      trivial⟩
    · exact Table.find?_modify_ne _ _ (QuestCompletionUpdate.key_apply _) hne.symm
    · simp [finalizes]
    · simp [Write.award, World.xpOf, World.apply]
  new s h _ _ := by
    refine ⟨LastWaypointInv.commit_elsewhere h me ?_ rfl (h.names.view_of_checkIns rfl) rfl ?_,
      trivial⟩
    · exact Table.find?_insert_ne _ hne
    · simp [Write.award, World.xpOf, World.apply]
  finalize loaded proof s s' t _ := by
    have h : LastWaypointInv w first userId questId quest s' := Rules.rely_inv _ t.to_commit
    obtain ⟨row, hrow⟩ := t.still_user
    refine ⟨h.commit_elsewhere me ?_ rfl (h.names.view_of_checkIns rfl) ?_ (t.xpOf_view hrow),
      trivial⟩
    · exact Table.find?_modify_ne _ _ (QuestCompletionUpdate.key_apply _) hne.symm
    · simpa [finalizes, Finalizing.writes] using fun hu hq => absurd (Prod.ext hu hq) hne
  step loaded locationId body s s₁ s' t _ hlocated _ hr := by
    have h : LastWaypointInv w first userId questId quest s' := Rules.rely_inv _ hr
    have hsame : ∀ l ∈ locksOf Stmt t.writes, Lock.same l s₁.db s'.db := Rules.rely_same _ hr
    refine ⟨h.commit_elsewhere me ?_ ?_ ?_ ?_ ?_, trivial⟩
    · exact Table.find?_modify_ne _ _ (QuestCompletionUpdate.key_apply _) hne.symm
    · rw [t.visitsAt_view (t.still_unvisited hsame), if_neg fun he => hne (Prod.ext he.1 he.2),
        List.append_nil]
    · exact h.names_checkIn t hlocated hsame
    · simp [finalizes, CheckingIn.writes]
    · rw [t.xpOf_view, t.awarded, Int.add_zero]
  last loaded locationId body seen s s₁ s' t fin _ hlocated _ := by
    have h : LastWaypointInv w first userId questId quest s' := Rules.rely_inv _ fin.to_commit
    have hsame : ∀ l ∈ locksOf Stmt t.writes, Lock.same l s₁.db s'.db := fun _ => fin.same
    refine ⟨h.commit_elsewhere me ?_ ?_ ?_ ?_ (t.xpOf_view_last fin), trivial⟩
    · rw [view_append]
      refine (Table.find?_modify_ne _ _ (QuestCompletionUpdate.key_apply _) hne.symm).trans ?_
      exact Table.find?_modify_ne _ _ (QuestCompletionUpdate.key_apply _) hne.symm
    · rw [view_append]
      refine (t.visitsAt_view (t.still_unvisited hsame) userId questId).trans ?_
      rw [if_neg fun he => hne (Prod.ext he.1 he.2), List.append_nil]
    · exact h.names_checkIn t hlocated hsame
    · simpa [finalizes, CheckingIn.writes, Finalizing.writes] using
        fun hu hq => absurd (Prod.ext hu hq) hne

-- A check-in of this user at this quest, up to its own commit.
section OwnCheckIn

variable {me : ℕ} {locationId : Id} {body : QuestCheckInBody} {s₀ s₁ s' : Store World Write}
  (h : LastWaypointInv w first userId questId quest s')
  (t : CheckingIn (lastWaypointContract w first userId questId quest).rules me userId questId
    locationId body s₀ s₁)
  (hlocated : Located (lastWaypointContract w first userId questId quest).rules questId locationId)
  (hsame : ∀ l ∈ locksOf Stmt t.writes, Lock.same l s₁.db s'.db)

include h hsame

-- The locked row keeps the others from checking in since the count was taken.
theorem counted_at_commit : t.counted = (s'.db.visitsAt userId questId).length + 1 := by
  have h₁ : LastWaypointInv w first userId questId quest s₁ := Rules.rely_inv _ t.to_count
  have hrow := hsame (.completion userId questId) (by simp [CheckingIn.writes, Write.locks])
  rw [t.counted_eq, h₁.visitsAt_of_same_row h hrow (t.still_started hsame)]

theorem visits_after : ((view Stmt s'.db t.writes).visitsAt userId questId).length = t.counted := by
  rw [t.visitsAt_view (t.still_unvisited hsame), if_pos ⟨rfl, rfl⟩, List.length_append,
    counted_at_commit h t hsame]
  rfl

include hlocated

theorem visits_checkIn : VisitsAt first userId questId (view Stmt s'.db t.writes) := by
  obtain ⟨l, hlocation, hof⟩ := hlocated.found (fun _ h => LastWaypointInv.locations_eq h) h
  exact t.visits_view (t.still_unvisited hsame) h.visits hlocation hof (t.still_started hsame)

-- Before its own check-in, one of the quest's locations was still missing.
theorem not_completed_at_commit : ¬Completed userId questId s'.db := by
  have hle := (visits_checkIn h t hlocated hsame).length_le
  have hlocations : (view Stmt s'.db t.writes).locationsOf questId = s'.db.locationsOf questId := by
    rw [World.locationsOf, view_questLocations, World.locationsOf]
  rw [visits_after h t hsame, counted_at_commit h t hsame, hlocations, h.locationsOf_eq] at hle
  rw [h.completed_iff]
  omega

theorem commit_step (hcount : t.counted < (w.locationsOf questId).length) :
    LastWaypointInv w first userId questId quest (s'.commit Stmt me t.writes) := by
  have hopen := not_completed_at_commit h t hlocated hsame
  have hstatus := (neutral_checkingIn t).status s'.db
  have hstill : ¬Completed userId questId (view Stmt s'.db t.writes) := by
    rwa [Completed, hstatus]
  have hfinalizes := (neutral_checkingIn t).finalizes me
  refine h.commit me (visits_checkIn h t hlocated hsame) (h.names_checkIn t hlocated hsame)
    ?_ ?_ ?_ ?_
  · rw [visits_after h t hsame, iff_false_left hstill]
    exact Nat.not_le_of_lt hcount
  · rw [hfinalizes, iff_false_left hstill]
    simpa using hopen
  · exact fun hf => absurd (hfinalizes.symm.trans hf) Bool.false_ne_true
  · rw [t.xpOf_view, t.awarded, Int.add_zero]

theorem commit_last {host : Host} {loaded : QuestWithLocations} {seen : List (Seen Stmt)}
    (fin : Finalizing (lastWaypointContract w first userId questId quest).rules me host userId
      questId loaded (some .checkIns) seen t.writes s₁ s')
    (hquest : loaded.quest = quest) (hcount : (w.locationsOf questId).length ≤ t.counted) :
    LastWaypointInv w first userId questId quest (s'.commit Stmt me (t.writes ++ fin.writes)) := by
  have hopen := not_completed_at_commit h t hlocated hsame
  have hfinalizes : finalizes userId questId (me, t.writes ++ fin.writes) = true := by
    simp [finalizes, Finalizing.writes, completedData]
  have hcompleted : Completed userId questId (view Stmt s'.db (t.writes ++ fin.writes)) := by
    obtain ⟨row, hrow⟩ := Option.isSome_iff_exists.mp (t.still_started hsame)
    rw [Completed, view_append, fin.view_completion, t.view_completion, hrow]
    rfl
  have hvisits : (view Stmt s'.db (t.writes ++ fin.writes)).visitsAt userId questId =
      (view Stmt s'.db t.writes).visitsAt userId questId := by
    rw [view_append]
    rfl
  refine h.commit me ?_ ?_ ?_ ?_ ?_ (t.xpOf_view_last fin)
  · rw [view_append]
    exact ((visits_checkIn h t hlocated hsame).completionUpdate rfl userId questId).congr rfl rfl rfl
  · rw [view_append]
    exact h.names_checkIn t hlocated hsame
  · rw [hvisits, visits_after h t hsame]
    exact iff_of_true hcompleted hcount
  · exact iff_of_true hcompleted (Or.inl hfinalizes)
  · refine fun _ => ⟨hopen, ?_⟩
    rw [awarded_append, t.awarded, fin.awarded, if_pos rfl, Int.zero_add, hquest]

end OwnCheckIn

theorem loaded_locations {loaded : QuestWithLocations}
    (h : Loaded (lastWaypointContract w first userId questId quest).rules questId loaded) :
    loaded.locations = w.locationsOf questId := by
  obtain ⟨s, hs, _, hlocations⟩ := h
  rw [hlocations, LastWaypointInv.locationsOf_eq hs]

theorem waypointRequest_wp {host : Host} {p : Request Unit}
    (hp : WaypointRequest host userId questId p) (me : ℕ) (s : Store World Write) :
    (lastWaypointContract w first userId questId quest).rules.wp me (fun _ _ => True) p s := by
  rcases hp with ⟨locationId, body, rfl⟩ | ⟨u, q, hne, hp⟩
  · apply Rules.wp_void
    apply wp_checkInLocation
    · intro s e h
      refine ⟨LastWaypointInv.commit_elsewhere h me rfl rfl (h.names.view_of_checkIns rfl) rfl ?_,
        trivial⟩
      simp [Write.award, World.xpOf, World.apply]
    · intro loaded s₀ s₁ s' t hloaded hlocated hcount hr
      rw [loaded_locations hloaded] at hcount
      exact ⟨commit_step (Rules.rely_inv _ hr) t hlocated (Rules.rely_same _ hr) hcount, trivial⟩
    · intro loaded seen s₀ s₁ s' t fin hloaded hlocated hcount
      have hquest := loaded_quest (fun _ h => LastWaypointInv.quest_found h) hloaded
      rw [loaded_locations hloaded] at hcount
      exact ⟨commit_last (Rules.rely_inv _ fin.to_commit) t hlocated (fun _ => fin.same) fin
        hquest hcount, trivial⟩
  · exact hp.wp (questCommits_elsewhere me host hne)

theorem JustStarted.inv (h : JustStarted w userId questId quest) :
    ∃ first, LastWaypointInv w first userId questId quest ⟨w, []⟩ := by
  obtain ⟨row, hrow, hstatus⟩ := Option.map_eq_some_iff.mp h.started
  have hnone : w.visitsAt userId questId = [] := by
    rw [List.eq_nil_iff_forall_not_mem]
    intro id hid
    obtain ⟨c, hc, huser, hquest, _⟩ := World.mem_visitsAt.mp hid
    exact (h.unvisited c hc huser).1 hquest
  have hopen : ¬Completed userId questId w := by
    rw [Completed, hrow, Option.map_some, hstatus]
    exact fun he => by cases he
  refine ⟨row.checkedInLocationIds, h.quest_found, rfl, ⟨?_, fun _ => hnone, ?_⟩, ?_, ?_, ?_, ?_⟩
  · intro ids hids
    rw [World.visitArray, hrow, Option.map_some] at hids
    rw [hnone, List.append_nil, Option.some.inj hids]
  · intro id hid
    rw [hnone] at hid
    cases hid
  · intro c hc huser l hl hof
    have hmem : l ∈ w.locationsOf questId := by
      rw [World.mem_locationsOf, Table.key_of_find? hl]
      exact ⟨hl, hof⟩
    exact absurd (Table.key_of_find? hl).symm ((h.unvisited c hc huser).2 l hmem)
  · rw [iff_false_left hopen, hnone]
    exact Nat.not_le_of_lt h.waypoints
  · rw [if_neg hopen]
    rfl
  · rw [if_neg hopen]
    simp [awardedIn]

-- A check-in at one of the quest's locations is in the rows that the count goes over.
theorem LastWaypointInv.mem_visitsAt_iff (h : LastWaypointInv w first userId questId quest s)
    {l : QuestLocation} (hl : l ∈ w.locationsOf questId) :
    l.id ∈ s.db.visitsAt userId questId ↔ (s.db.checkIns.find? (userId, l.id)).isSome := by
  rw [World.mem_visitsAt, Option.isSome_iff_exists]
  rw [← h.locationsOf_eq, World.mem_locationsOf] at hl
  constructor
  · rintro ⟨c, hc, huser, _, hlocation⟩
    exact ⟨c, Table.find?_eq_some_iff.mpr ⟨hc, Prod.ext huser hlocation⟩⟩
  · rintro ⟨c, hfound⟩
    have hc := Table.mem_of_find? hfound
    have hkey : c.key = (userId, l.id) := Table.key_of_find? hfound
    obtain ⟨huser, hlocation⟩ := Prod.mk.inj hkey
    exact ⟨c, hc, huser, h.names c hc huser l (hlocation ▸ hl.1) hl.2, hlocation⟩

-- In every state that the requests reach, the quest is completed and paid for, once, if
-- all its waypoints are visited, and neither if not.
theorem paidWhenVisited_of_reaches (host : Host) (hw : JustStarted w userId questId quest)
    {s : System Stmt World Write ApiError}
    (h : System.Reaches (WaypointRequest host userId questId) Guard.none (System.init w) s) :
    PaidWhenVisited w userId questId quest s.store := by
  obtain ⟨first, hinit⟩ := hw.inv
  have hsafe := System.Reaches.safe (C := lastWaypointContract w first userId questId quest)
    (fun p hp me st _ => waypointRequest_wp hp me st) (fun a st hst => ?_)
    (System.init_safe hinit) h
  · have hinv := hsafe.1.inv
    refine ⟨?_, hinv.finalized, hinv.xp⟩
    have hall := hinv.visits.length_ge_iff
    rw [hinv.locationsOf_eq] at hall
    rw [hinv.completed_iff, hall]
    exact forall₂_congr fun l hl => hinv.mem_visitsAt_iff hl
  · refine ⟨⟨hst.quest_found, hst.locations_eq, hst.visits.congr rfl rfl rfl, hst.names,
      hst.completed_iff, hst.finalized, hst.xp⟩, trivial⟩

-- Both waypoints visited at the same time: the two check-ins create their rows before
-- either gets the lock on the completion, and the second to get it completes the quest.
theorem paidWhenVisited_both_waypoints : ∃ s : System Stmt World Write ApiError,
    PaidWhenVisited onTheLongTrail 1 1 trail s.store ∧ Completed 1 1 s.store.db := by
  have hps : ∀ p ∈ [visit 1, visit 2], WaypointRequest .plain 1 1 p := by
    simp only [List.forall_mem_cons]
    exact ⟨Or.inl ⟨1, _, rfl⟩, Or.inl ⟨2, _, rfl⟩, by simp⟩
  obtain ⟨s, hs, hobs⟩ := System.exists_reaches_of_interleave (WaypointRequest .plain 1 1)
    Guard.none (System.init onTheLongTrail) [visit 1, visit 2]
    [0, 1, 0, 1, 0, 1, 0, 1, 0, 1, 0, 1, 0, 1, 0, 0, 0, 0, 1, 1, 1, 1, 1, 1, 1, 1, 1]
    (fun s => decide (Completed 1 1 s.store.db)) true hps (by decide +kernel)
  have hw : JustStarted onTheLongTrail 1 1 trail :=
    ⟨rfl, by decide +kernel, by decide +kernel, by decide +kernel⟩
  exact ⟨s, paidWhenVisited_of_reaches .plain hw hs, of_decide_eq_true hobs⟩

end QuestsService

end SideQuest
