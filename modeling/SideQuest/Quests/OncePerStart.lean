import SideQuest.Quests.Requests
import SideQuest.Lib.Log

-- At most one reward per start, over every interleaving of the requests of one user at
-- one quest.

namespace SideQuest

open ReadCommitted

namespace QuestsService

-- The commit of a finalization.
def finalizes (userId questId : Id) (entry : ℕ × List Write) : Bool :=
  entry.2.any fun
    | .completionUpdate u q d => u = userId ∧ q = questId ∧ d.status = some .COMPLETED
    | _ => false

-- The commit of a `start`, of a new row or of one that exists.
def starts (userId questId : Id) (entry : ℕ × List Write) : Bool :=
  entry.2.any fun
    | .completionUpdate u q d => u = userId ∧ q = questId ∧ d.status = some .STARTED
    | .completionCreate row => row.userId = userId ∧ row.questId = questId
    | _ => false

def Completed (userId questId : Id) (w : World) : Prop :=
  (w.completions.find? (userId, questId)).map QuestCompletion.status = some .COMPLETED

instance (userId questId : Id) (w : World) : Decidable (Completed userId questId w) :=
  inferInstanceAs (Decidable (_ = _))

-- A row that a finalization has read as not completed still is not when it completes it.
def claimsOpenRow : Guard Stmt World := fun seen _ st w =>
  match st with
  | .completionUpdate u q d => d.status ≠ some .COMPLETED ∨ seen.all fun
      | ⟨.completionFindUnique u' q', some row⟩ =>
          (u', q') ≠ (u, q) ∨ row.status = .COMPLETED ∨ ¬Completed u q w
      | _ => true
  | _ => true

-- The rewards that the log accounts for.
structure OncePerStart (userId questId : Id) (quest : Quest) (before : User)
    (s : Store World Write) : Prop where
  once : Log.OncePer (starts userId questId) (finalizes userId questId) s.wal
  rewards : ∃ user, s.db.users.find? userId = some user ∧
    user.xp = before.xp + s.wal.countP (finalizes userId questId) * quest.xpReward ∧
    user.questsDone = before.questsDone + s.wal.countP (finalizes userId questId)

structure OnceInv (userId questId : Id) (quest : Quest) (before : User)
    (s : Store World Write) : Prop extends OncePerStart userId questId quest before s where
  quest_found : s.db.quests.find? questId = some quest
  spent : Log.Spent (starts userId questId) (finalizes userId questId) s.wal →
    Completed userId questId s.db

theorem view_quests (db : World) (ws : List Write) : (view Stmt db ws).quests = db.quests := by
  induction ws generalizing db with
  | nil => rfl
  | cons wr ws ih => rw [view_cons, ih]; cases wr <;> rfl

variable {userId questId : Id} {quest : Quest} {before : User} {s : Store World Write}

-- What one more commit must establish.
theorem OnceInv.commit (h : OnceInv userId questId quest before s) (me : ℕ) {ws : List Write}
    (hne : ws ≠ [])
    (huser : ∀ user, s.db.users.find? userId = some user →
      ∃ user', (view Stmt s.db ws).users.find? userId = some user' ∧
        user'.xp = user.xp + (if finalizes userId questId (me, ws) then quest.xpReward else 0) ∧
        user'.questsDone = user.questsDone + if finalizes userId questId (me, ws) then 1 else 0)
    (hopen : finalizes userId questId (me, ws) = true → ¬Completed userId questId s.db)
    (hclosed : starts userId questId (me, ws) = false →
      finalizes userId questId (me, ws) = true ∨ Completed userId questId s.db →
        Completed userId questId (view Stmt s.db ws)) :
    OnceInv userId questId quest before (s.commit Stmt me ws) := by
  cases ws with
  | nil => exact absurd rfl hne
  | cons w ws =>
      obtain ⟨user, hfound, hxp, hdone⟩ := h.rewards
      obtain ⟨user', hfound', hxp', hdone'⟩ := huser user hfound
      refine ⟨⟨?_, user', hfound', ?_, ?_⟩, ?_, ?_⟩
      · exact Log.oncePer_concat h.once fun _ hf hspent => hopen hf (h.spent hspent)
      · rw [hxp', hxp, Store.commit_wal_cons, List.countP_append, List.countP_singleton]
        split <;> push_cast <;> ring
      · rw [hdone', hdone, Store.commit_wal_cons, List.countP_append, List.countP_singleton,
          Nat.add_assoc]
      · rw [Store.commit_db, view_quests]
        exact h.quest_found
      · intro hspent
        obtain ⟨hstart, hf⟩ := Log.spent_concat hspent
        exact hclosed hstart (hf.imp_right h.spent)

-- Writes that neither start nor finalize, and leave the rewards alone.
structure Neutral (userId questId : Id) (ws : List Write) : Prop where
  finalizes : ∀ me, finalizes userId questId (me, ws) = false
  status : ∀ db : World, ((view Stmt db ws).completions.find? (userId, questId)).map
    QuestCompletion.status = (db.completions.find? (userId, questId)).map QuestCompletion.status
  user : ∀ (db : World) user, db.users.find? userId = some user →
    ∃ user', (view Stmt db ws).users.find? userId = some user' ∧ user'.xp = user.xp ∧
      user'.questsDone = user.questsDone

theorem neutral_nil : Neutral userId questId [] where
  finalizes _ := rfl
  status _ := rfl
  user _ user h := ⟨user, h, rfl, rfl⟩

theorem neutral_emit (event : AppEvent) : Neutral userId questId [.emit event] where
  finalizes _ := rfl
  status _ := rfl
  user _ user h := ⟨user, h, rfl, rfl⟩

theorem neutral_checkingIn {R : Rules Stmt} {me : ℕ} {locationId : Id} {body : QuestCheckInBody}
    {s s' : Store World Write} (t : CheckingIn R me userId questId locationId body s s') :
    Neutral userId questId t.writes where
  finalizes _ := by simp [QuestsService.finalizes, CheckingIn.writes]
  status db := by
    rw [t.view_completion, Option.map_map]
    rfl
  user db user h := ⟨_, (t.view_user db).trans (congrArg (Option.map _) h), rfl, rfl⟩

theorem OnceInv.commit_neutral (h : OnceInv userId questId quest before s) {me : ℕ}
    {ws : List Write} (hws : Neutral userId questId ws) :
    OnceInv userId questId quest before (s.commit Stmt me ws) := by
  by_cases hne : ws = []
  · subst hne
    exact h
  · apply h.commit me hne
    · intro user hfound
      obtain ⟨user', hfound', hxp, hdone⟩ := hws.user s.db user hfound
      rw [hws.finalizes]
      exact ⟨user', hfound', by simpa using hxp, by simpa using hdone⟩
    · rw [hws.finalizes]
      exact fun hf => by cases hf
    · rw [hws.finalizes, Completed, Completed, hws.status]
      exact fun _ hc => hc.resolve_left (by simp)

-- What a finalization has checked on its read still holds at its commit.
theorem not_completed_of_finalizing {R : Rules Stmt} (hR : R.guard = claimsOpenRow) {me : ℕ}
    {host : Host} {loaded : QuestWithLocations} {proof : Option CompletionProof}
    {seen : List (Seen Stmt)} {ws : List Write} {s s' : Store World Write}
    (t : Finalizing R me host userId questId loaded proof seen ws s s')
    (hws : Neutral userId questId ws) : ¬Completed userId questId s'.db := by
  have hguard := t.claim_guard
  rw [hR] at hguard
  have hrace := (of_decide_eq_true hguard).resolve_left fun hne => hne rfl
  have hread := of_decide_eq_true (List.all_eq_true.mp hrace _ List.mem_cons_self)
  have hopen : ¬Completed userId questId (view Stmt t.atClaim.db ws) :=
    (hread.resolve_left fun hne => hne rfl).resolve_left t.notCompleted
  rwa [Completed, hws.status, ← t.same_completion] at hopen

theorem OnceInv.commit_finalizing {R : Rules Stmt} (hR : R.guard = claimsOpenRow) {me : ℕ}
    {host : Host} {loaded : QuestWithLocations} {proof : Option CompletionProof}
    {seen : List (Seen Stmt)} {ws : List Write} {s₁ : Store World Write}
    (h : OnceInv userId questId quest before s)
    (t : Finalizing R me host userId questId loaded proof seen ws s₁ s)
    (hquest : loaded.quest = quest) (hws : Neutral userId questId ws) :
    OnceInv userId questId quest before (s.commit Stmt me (ws ++ t.writes)) := by
  have hfinalizes : finalizes userId questId (me, ws ++ t.writes) = true := by
    simp [finalizes, Finalizing.writes, completedData]
  apply h.commit me (by simp [Finalizing.writes])
  · intro user hfound
    obtain ⟨user', hfound', hxp, hdone⟩ := hws.user s.db user hfound
    refine ⟨(rewardData host loaded t.user t.now).apply user', ?_, ?_, ?_⟩
    · rw [view_append, t.view_user, hfound', Option.map_some]
    · simp [hfinalizes, UserUpdate.apply, rewardData, FieldUpdate.apply, hxp, hquest]
    · simp [hfinalizes, UserUpdate.apply, rewardData, FieldUpdate.apply, hdone]
  · exact fun _ => not_completed_of_finalizing hR t hws
  · intro _ _
    obtain ⟨row, hrow⟩ := t.claim_found
    have hstatus := hws.status s.db
    rw [t.same_completion, ← hws.status t.atClaim.db, hrow] at hstatus
    obtain ⟨row', hrow', _⟩ := Option.map_eq_some_iff.mp hstatus
    rw [Completed, view_append, t.view_completion, hrow']
    rfl

abbrev onceContract (userId questId : Id) (quest : Quest) (before : User) :
    Contract Stmt World Write :=
  .ofInv (OnceInv userId questId quest before) claimsOpenRow

-- A `start` writes a row that is not completed and no reward.
theorem OnceInv.commit_start (h : OnceInv userId questId quest before s) {me : ℕ} {wr : Write}
    (hstarts : starts userId questId (me, [wr]) = true)
    (hfinalizes : finalizes userId questId (me, [wr]) = false)
    (husers : (s.db.apply wr).users = s.db.users) :
    OnceInv userId questId quest before (s.commit Stmt me [wr]) := by
  apply h.commit me (List.cons_ne_nil _ _)
  · intro user hfound
    exact ⟨user, husers ▸ hfound, by simp [hfinalizes], by simp [hfinalizes]⟩
  · exact fun hf => absurd (hfinalizes.symm.trans hf) Bool.false_ne_true
  · exact fun hs => absurd (hs.symm.trans hstarts) Bool.false_ne_true

theorem loaded_quest {loaded : QuestWithLocations} {R : Rules Stmt}
    (hR : ∀ s, R.inv s → s.db.quests.find? questId = some quest)
    (h : Loaded R questId loaded) : loaded.quest = quest := by
  obtain ⟨s, hs, hfound, _⟩ := h
  exact Option.some.inj (hfound.symm.trans (hR s hs))

theorem questCommits_once (me : ℕ) (host : Host) :
    QuestCommits (onceContract userId questId quest before).rules me host userId questId where
  emits s e h := ⟨h.commit_neutral (neutral_emit e), trivial⟩
  again s row now h _ := ⟨h.commit_start (by simp [starts]) (by simp [finalizes]) rfl, trivial⟩
  new s h _ _ := ⟨h.commit_start (by simp [starts]) (by simp [finalizes]) rfl, trivial⟩
  finalize loaded proof s s' t hl := by
    have hinv : OnceInv userId questId quest before s' := Rules.rely_inv _ t.to_commit
    have hquest := loaded_quest (fun _ h => OnceInv.quest_found h) hl
    exact ⟨hinv.commit_finalizing rfl t hquest neutral_nil, trivial⟩
  step loaded locationId body s s₁ s' t _ _ _ hr :=
    ⟨(Rules.rely_inv _ hr : OnceInv userId questId quest before s').commit_neutral
      (neutral_checkingIn t), trivial⟩
  last loaded locationId body seen s s₁ s' t fin hl _ _ := by
    have hinv : OnceInv userId questId quest before s' := Rules.rely_inv _ fin.to_commit
    have hquest := loaded_quest (fun _ h => OnceInv.quest_found h) hl
    exact ⟨hinv.commit_finalizing rfl fin hquest (neutral_checkingIn t), trivial⟩

-- As long as no other finalization comes between the check of one and its update, every
-- start pays at most once.
theorem oncePerStart_of_reaches (host : Host) {w : World}
    (hquest : w.quests.find? questId = some quest) (hbefore : w.users.find? userId = some before)
    {s : System Stmt World Write ApiError}
    (h : System.Reaches (QuestRequest host userId questId) claimsOpenRow (System.init w) s) :
    OncePerStart userId questId quest before s.store := by
  have hinit : OnceInv userId questId quest before ⟨w, []⟩ := {
    once := Log.oncePer_nil
    rewards := ⟨before, hbefore, by simp, by simp⟩
    quest_found := hquest
    spent := fun hs => absurd hs Log.not_spent_nil }
  have hsafe := System.Reaches.safe (C := onceContract userId questId quest before)
    (fun p hp me st _ => hp.wp (questCommits_once me host)) (fun a st hst => ?_)
    (System.init_safe hinit) h
  · exact hsafe.1.inv.toOncePerStart
  · exact ⟨{ hst with rewards := hst.rewards, quest_found := hst.quest_found }, trivial⟩

-- Two `complete` requests at the same time: both find the row open before either begins
-- its transaction, and the second transaction finds it completed.
theorem oncePerStart_two_completes : ∃ s : System Stmt World Write ApiError,
    OncePerStart 1 1 trail hiker s.store ∧
      (s.store.db.users.find? 1).map (fun u => (u.xp, u.questsDone)) = some (100, 1) := by
  obtain ⟨s, hs, hobs⟩ := System.exists_reaches_of_interleave (QuestRequest .plain 1 1)
    claimsOpenRow (System.init onTheTrail)
    [(complete .plain 1 1 none).void, (complete .plain 1 1 none).void]
    [0, 1, 0, 1, 0, 1, 0, 0, 0, 0, 0, 0, 1, 1, 1, 1]
    (fun s => (s.store.db.users.find? 1).map fun u => (u.xp, u.questsDone)) (some (100, 1))
    (by simpa using .complete none) (by decide +kernel)
  exact ⟨s, oncePerStart_of_reaches .plain rfl rfl hs, hobs⟩

-- Two `complete` requests read the row as STARTED. The second updates it and commits
-- before the first does.
theorem two_rewards_for_one_start : ∃ s : System Stmt World Write ApiError,
    System.Reaches (QuestRequest .plain 1 1) Guard.none (System.init onTheTrail) s ∧
      ¬Log.OncePer (starts 1 1) (finalizes 1 1) s.store.wal ∧
      (s.store.db.users.find? 1).map (fun u => (u.xp, u.questsDone)) = some (200, 2) := by
  obtain ⟨s, hs, hobs⟩ := System.exists_reaches_of_interleave (QuestRequest .plain 1 1)
    Guard.none (System.init onTheTrail)
    [(complete .plain 1 1 none).void, (complete .plain 1 1 none).void]
    [0, 0, 0, 0, 0, 0, 1, 1, 1, 1, 1, 1, 1, 1, 1, 0, 0, 0]
    (fun s => ((s.store.db.users.find? 1).map fun u => (u.xp, u.questsDone),
      s.store.wal.all fun e => !starts 1 1 e, s.store.wal.countP (finalizes 1 1)))
    (some (200, 2), true, 2) (by simpa using .complete none) (by decide +kernel)
  simp only [Prod.mk.injEq, List.all_eq_true, Bool.not_eq_true'] at hobs
  obtain ⟨hrewards, hstarts, htwo⟩ := hobs
  refine ⟨s, hs, fun honce => ?_, hrewards⟩
  have hle := honce s.store.wal List.infix_rfl hstarts
  omega

end QuestsService

end SideQuest
