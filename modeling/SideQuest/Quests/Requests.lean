import SideQuest.Quests.Transactions

-- The requests of `QuestsService`, by what each of them may commit.

namespace SideQuest

open ReadCommitted

namespace QuestsService

variable {R : Rules Stmt} {me : ℕ} {s : Store World Write}

-- The quest as some store with the invariant has it.
def Loaded (R : Rules Stmt) (questId : Id) (quest : QuestWithLocations) : Prop :=
  ∃ s, R.inv s ∧ s.db.quests.find? questId = some quest.quest ∧
    quest.locations = s.db.locationsOf questId

theorem loaded_of_found {questId : Id} {quest : QuestWithLocations} (hs : R.inv s)
    (h : (s.db.quests.find? questId).map (fun q => ⟨q, s.db.locationsOf questId⟩) = some quest) :
    Loaded R questId quest := by
  obtain ⟨row, hrow, rfl⟩ := Option.map_eq_some_iff.mp h
  exact ⟨s, hs, hrow, rfl⟩

-- The location as some store with the invariant has it.
def Located (R : Rules Stmt) (questId locationId : Id) : Prop :=
  ∃ s l, R.inv s ∧ s.db.questLocations.find? locationId = some l ∧ l.questId = questId

theorem Located.found {locations : Table QuestLocation.id}
    (hR : ∀ s, R.inv s → s.db.questLocations = locations) {questId locationId : Id}
    (h : Located R questId locationId) (hs : R.inv s) :
    ∃ l, s.db.questLocations.find? locationId = some l ∧ l.questId = questId := by
  obtain ⟨s₀, l, hs₀, hfound, hof⟩ := h
  refine ⟨l, ?_, hof⟩
  rw [hR s hs, ← hR s₀ hs₀]
  exact hfound

theorem wp_start {userId questId : Id} (hemit : Emits R me)
    (hagain : ∀ s₁ s' quest row now, R.rely me [] s s₁ → s₁.db.quests.find? questId = some quest →
      quest.status = .PUBLISHED → R.rely me [] s₁ s' →
        s'.db.completions.find? (userId, questId) = some row →
          R.Commits me s' [.completionUpdate userId questId
            { status := some .STARTED, startedAt := some now }])
    (hnew : ∀ s', R.rely me [] s s' → s'.db.completions.find? (userId, questId) = none →
      (s'.db.users.find? userId).isSome → R.Commits me s' [.completionCreate
        { userId := userId, questId := questId, startedAt := s'.db.clock }]) :
    R.wp me (fun _ _ => True) (start userId questId) s := by
  unfold start
  refine Rules.wp_query (fun _ => rfl) fun s₁ h₁ => ?_
  refine Rules.wp_expect fun quest hquest => ?_
  obtain ⟨row, hfound, rfl⟩ := Option.map_eq_some_iff.mp hquest
  refine Rules.wp_require fun hpublished => ?_
  refine Rules.wp_query (fun _ => rfl) fun s₂ h₂ => ?_
  refine Rules.wp_call fun s₃ h₃ _ _ _ he => ⟨?_, ?_⟩
  · have hr := R.rely_trans h₂ h₃
    rcases exec_completionUpsertStarted he with ⟨_, hrow, rfl⟩ | ⟨hnone, huser, rfl⟩
    · exact hagain s₁ s₃ row _ _ h₁ hfound hpublished hr hrow
    · exact hnew s₃ (R.rely_trans h₁ hr) hnone huser
  · exact wp_emit hemit fun _ _ _ => trivial

theorem wp_complete {host : Host} {userId questId : Id} {proof : Option CompletionProof}
    (hemit : Emits R me)
    (hfinalize : ∀ quest s₁ s' (t : Finalizing R me host userId questId quest proof [] [] s₁ s'),
      Loaded R questId quest → R.Commits me s' t.writes) :
    R.wp me (fun _ _ => True) (complete host userId questId proof) s := by
  unfold complete
  refine Rules.wp_query (fun _ => rfl) fun s₁ h₁ => ?_
  refine Rules.wp_expect fun quest hquest => ?_
  have hloaded := loaded_of_found (R.rely_inv h₁) hquest
  refine Rules.wp_query (fun _ => rfl) fun s₂ h₂ => ?_
  refine Rules.wp_expect fun active _ => ?_
  refine Rules.wp_require fun _ => ?_
  refine Rules.wp_transaction (wpTx_finalizeQuestCompletionTx fun _ s' t => ?_)
  refine ⟨hfinalize quest s₂ s' t hloaded, ?_⟩
  exact wp_emit hemit fun _ => wp_when_emit hemit fun _ _ _ => trivial

theorem wp_checkInLocation {host : Host} {userId questId locationId : Id}
    {body : QuestCheckInBody} (hemit : Emits R me)
    (hstep : ∀ quest s₁ s₂ s' (t : CheckingIn R me userId questId locationId body s₁ s₂),
      Loaded R questId quest → Located R questId locationId →
        t.counted < quest.locations.length → R.rely me (locksOf Stmt t.writes) s₂ s' →
          R.Commits me s' t.writes)
    (hlast : ∀ quest seen s₁ s₂ s' (t : CheckingIn R me userId questId locationId body s₁ s₂)
      (fin : Finalizing R me host userId questId quest (some .checkIns) seen t.writes s₂ s'),
      Loaded R questId quest → Located R questId locationId →
        quest.locations.length ≤ t.counted → R.Commits me s' (t.writes ++ fin.writes)) :
    R.wp me (fun _ _ => True) (checkInLocation host userId questId locationId body) s := by
  unfold checkInLocation
  refine Rules.wp_query (fun _ => rfl) fun s₁ h₁ => ?_
  refine Rules.wp_expect fun quest hquest => ?_
  have hloaded := loaded_of_found (R.rely_inv h₁) hquest
  refine Rules.wp_require fun _ => ?_
  refine Rules.wp_query (fun _ => rfl) fun s₂ h₂ => ?_
  refine Rules.wp_expect fun location hlocation => ?_
  obtain ⟨hlocation, hof⟩ := Option.filter_eq_some_iff.mp hlocation
  have hlocated : Located R questId locationId :=
    ⟨s₂, location, R.rely_inv h₂, hlocation, of_decide_eq_true hof⟩
  refine Rules.wp_require fun _ => ?_
  refine Rules.wp_query (fun _ => rfl) fun s₃ h₃ => ?_
  split
  · exact Rules.wp_query (fun _ => rfl) fun _ _ _ _ => trivial
  · unfold checkInNew
    refine Rules.wp_query (fun _ => rfl) fun s₄ h₄ => ?_
    refine Rules.wp_expect fun active _ => ?_
    refine Rules.wp_require fun _ => ?_
    refine Rules.wp_require fun _ => ?_
    refine Rules.wp_transaction (wpTx_checkInTx ?_ ?_ ?_)
    · intro _ s' completed hr
      refine ⟨Rules.commits_nil (R.rely_inv hr), ?_⟩
      exact wp_when_emit hemit fun _ _ _ => trivial
    · intro _ s₅ s' t hcount hr
      refine ⟨hstep quest s₄ s₅ s' t hloaded hlocated hcount hr, ?_⟩
      exact wp_when_emit hemit fun _ _ _ => trivial
    · intro seen _ s₅ s' t fin hcount
      refine ⟨hlast quest seen s₄ s₅ s' t fin hloaded hlocated hcount, ?_⟩
      exact wp_emit hemit fun _ => wp_when_emit hemit fun _ =>
        wp_when_emit hemit fun _ _ _ => trivial

-- The requests of one user at one quest.
inductive QuestRequest (host : Host) (userId questId : Id) : Request Unit → Prop where
  | start : QuestRequest host userId questId (start userId questId)
  | complete (proof : Option CompletionProof) :
      QuestRequest host userId questId (complete host userId questId proof).void
  | checkInLocation (locationId : Id) (body : QuestCheckInBody) :
      QuestRequest host userId questId (checkInLocation host userId questId locationId body).void

-- The requests of all users at all quests.
def AnyQuestRequest (host : Host) (p : Request Unit) : Prop :=
  ∃ userId questId, QuestRequest host userId questId p

-- Everything that these requests may commit is fine.
structure QuestCommits (R : Rules Stmt) (me : ℕ) (host : Host) (userId questId : Id) : Prop where
  emits : Emits R me
  again : ∀ s row now, R.inv s → s.db.completions.find? (userId, questId) = some row →
    R.Commits me s [.completionUpdate userId questId
      { status := some .STARTED, startedAt := some now }]
  new : ∀ s, R.inv s → s.db.completions.find? (userId, questId) = none →
    (s.db.users.find? userId).isSome → R.Commits me s [.completionCreate
      { userId := userId, questId := questId, startedAt := s.db.clock }]
  finalize : ∀ quest proof s s' (t : Finalizing R me host userId questId quest proof [] [] s s'),
    Loaded R questId quest → R.Commits me s' t.writes
  step : ∀ quest locationId body s s₁ s'
    (t : CheckingIn R me userId questId locationId body s s₁),
      Loaded R questId quest → Located R questId locationId →
        t.counted < quest.locations.length → R.rely me (locksOf Stmt t.writes) s₁ s' →
          R.Commits me s' t.writes
  last : ∀ quest locationId body seen s s₁ s'
    (t : CheckingIn R me userId questId locationId body s s₁)
    (fin : Finalizing R me host userId questId quest (some .checkIns) seen t.writes s₁ s'),
      Loaded R questId quest → Located R questId locationId →
        quest.locations.length ≤ t.counted → R.Commits me s' (t.writes ++ fin.writes)

theorem QuestRequest.wp {host : Host} {userId questId : Id} {p : Request Unit}
    (hp : QuestRequest host userId questId p) (h : QuestCommits R me host userId questId) :
    R.wp me (fun _ _ => True) p s := by
  cases hp with
  | start =>
      apply wp_start h.emits
      · exact fun _ s' _ row now _ _ _ hr hrow => h.again s' row now (R.rely_inv hr) hrow
      · exact fun s' hr hnone huser => h.new s' (R.rely_inv hr) hnone huser
  | complete proof =>
      apply Rules.wp_void
      exact wp_complete h.emits fun quest s₁ s' t => h.finalize quest proof s₁ s' t
  | checkInLocation locationId body =>
      apply Rules.wp_void
      apply wp_checkInLocation h.emits
      · exact fun quest s₁ s₂ s' t => h.step quest locationId body s₁ s₂ s' t
      · exact fun quest seen s₁ s₂ s' t fin => h.last quest locationId body seen s₁ s₂ s' t fin

-- A user who has started a quest of 100 XP with one waypoint.
def hiker : User where
  id := 1
  email := "hiker@example.com"
  username := "hiker"
  passwordHash := "hash"

def trail : Quest where
  id := 1
  status := .PUBLISHED
  xpReward := 100

def onTheTrail : World :=
  { World.empty with
    users := Table.empty.insert hiker
    quests := Table.empty.insert trail
    questLocations := Table.empty.insert { id := 1, questId := 1, latitude := 0, longitude := 0 }
    completions := Table.empty.insert { userId := 1, questId := 1, startedAt := 0 } }

-- The same trail with a second waypoint.
def onTheLongTrail : World :=
  { onTheTrail with
    questLocations := onTheTrail.questLocations.insert
      { id := 2, questId := 1, latitude := 0, longitude := 0 } }

-- A check-in of the hiker, right at the waypoint.
def visit (locationId : Id) : Request Unit :=
  (checkInLocation .plain 1 1 locationId ⟨⟨0, 0⟩, none⟩).void

theorem foreignKeys_onTheTrail : onTheTrail.ForeignKeys where
  completions := by decide +kernel
  userAchievements _ ha := by cases ha
  inviters _ hi := by cases hi
  invitees _ hi := by cases hi
  requesters _ hf := by cases hf
  addressees _ hf := by cases hf

end QuestsService

end SideQuest
