import SideQuest.Model.Quests
import SideQuest.Model.CallLemmas

-- The two transactions of `QuestsService`, as what they have read and written by the
-- time they commit.

namespace SideQuest

open ReadCommitted

namespace QuestsService

abbrev claimWrite (userId questId : Id) (quest : QuestWithLocations)
    (proof : Option CompletionProof) (completion : QuestCompletion) (now : Time) : Write :=
  .completionUpdate userId questId (completedData quest.quest proof completion now)

abbrev rewardWrite (host : Host) (userId : Id) (quest : QuestWithLocations) (user : User)
    (now : Time) : Write :=
  .userUpdate userId (rewardData host quest user now)

section

variable (R : Rules Stmt) (me : ℕ) (host : Host) (userId questId : Id)
  (quest : QuestWithLocations) (proof : Option CompletionProof) (seen : List (Seen Stmt))
  (ws : List Write) (s s' : Store World Write)

-- A finalization that started at `s` after the writes `ws` and is about to commit at
-- `s'`, with the stores at its reads and its updates of the two rows.
structure Finalizing where
  user : User
  now : Time
  completion : QuestCompletion
  atUser : Store World Write
  atCompletion : Store World Write
  atClaim : Store World Write
  atReward : Store World Write
  to_user : R.rely me (locksOf Stmt ws) s atUser
  user_found : (view Stmt atUser.db ws).users.find? userId = some user
  to_completion : R.rely me (locksOf Stmt ws) atUser atCompletion
  completion_found : (view Stmt atCompletion.db ws).completions.find? (userId, questId) =
    some completion
  notCompleted : completion.status ≠ .COMPLETED
  to_claim : R.rely me (locksOf Stmt ws) atCompletion atClaim
  claim_guard : R.guard (⟨.completionFindUnique userId questId, some completion⟩ ::
      ⟨.now, now⟩ :: ⟨.userFindUnique userId, some user⟩ :: seen)
    (.completionUpdate userId questId (completedData quest.quest proof completion now))
    (view Stmt atClaim.db ws) = true
  claim_found : ∃ row, (view Stmt atClaim.db ws).completions.find? (userId, questId) = some row
  to_reward : R.rely me (locksOf Stmt (ws ++ [claimWrite userId questId quest proof completion now]))
    atClaim atReward
  reward_guard : R.guard
    (⟨.completionUpdate userId questId (completedData quest.quest proof completion now), ()⟩ ::
      ⟨.completionFindUnique userId questId, some completion⟩ ::
      ⟨.now, now⟩ :: ⟨.userFindUnique userId, some user⟩ :: seen)
    (.userUpdate userId (rewardData host quest user now))
    (view Stmt atReward.db (ws ++ [claimWrite userId questId quest proof completion now])) = true
  reward_found : ∃ row, (view Stmt atReward.db
    (ws ++ [claimWrite userId questId quest proof completion now])).users.find? userId = some row
  to_commit : R.rely me (locksOf Stmt (ws ++ [claimWrite userId questId quest proof completion now,
    rewardWrite host userId quest user now])) atReward s'

end

variable {R : Rules Stmt} {me : ℕ} {host : Host} {userId questId : Id}
  {quest : QuestWithLocations} {proof : Option CompletionProof} {seen : List (Seen Stmt)}
  {ws : List Write} {s s' : Store World Write}

def Finalizing.writes (t : Finalizing R me host userId questId quest proof seen ws s s') :
    List Write :=
  [claimWrite userId questId quest proof t.completion t.now,
    rewardWrite host userId quest t.user t.now]

def Finalizing.outcome (t : Finalizing R me host userId questId quest proof seen ws s s') :
    FinalizeOutcome :=
  ⟨quest.quest.xpReward, levelFromXp t.user.xp, levelFromXp (t.user.xp + quest.quest.xpReward),
    computeStreak t.user.streakDays t.user.lastQuestCompletedAt t.now, t.now⟩

theorem wpTx_finalizeQuestCompletionTx
    {Q : List (Seen Stmt) → List Write → FinalizeOutcome → Store World Write → Prop}
    (h : ∀ seen' s' (t : Finalizing R me host userId questId quest proof seen ws s s'),
      Q seen' (ws ++ t.writes) t.outcome s') :
    R.wpTx me Q (finalizeQuestCompletionTx host userId questId quest proof) seen ws s := by
  unfold finalizeQuestCompletionTx
  refine Rules.wpTx_query (fun _ => rfl) fun atUser to_user => ?_
  refine Rules.wpTx_expect fun user user_found => ?_
  refine Rules.wpTx_query (fun _ => rfl) fun atNow to_now => ?_
  refine Rules.wpTx_query (fun _ => rfl) fun atCompletion to_completion => ?_
  refine Rules.wpTx_expect fun completion completion_found => ?_
  refine Rules.wpTx_require fun notCompleted => ?_
  refine Rules.wpTx_call fun atClaim to_claim claim_guard _ _ he => ?_
  obtain ⟨claim_found, rfl⟩ := exec_completionUpdate he
  refine Rules.wpTx_call fun atReward to_reward reward_guard _ _ he => ?_
  obtain ⟨row, hrow, rfl, rfl⟩ := exec_userUpdate he
  intro s' to_commit
  rw [user_found, completion_found] at claim_guard reward_guard
  rw [List.append_assoc] at to_commit ⊢
  exact h _ s' {
    user, now := _, completion, atUser, atCompletion, atClaim, atReward, to_user, user_found,
    to_completion := R.rely_trans to_now to_completion
    completion_found, notCompleted, to_claim, claim_guard, claim_found, to_reward, reward_guard
    reward_found := ⟨row, hrow⟩
    to_commit }

-- A finalization may wait before it commits.
def Finalizing.later {s'' : Store World Write}
    (t : Finalizing R me host userId questId quest proof seen ws s s')
    (hr : R.rely me (locksOf Stmt (ws ++ t.writes)) s' s'') :
    Finalizing R me host userId questId quest proof seen ws s s'' :=
  { t with to_commit := R.rely_trans t.to_commit hr }

-- The row locks of a finalization hold until it commits.
theorem Finalizing.same_completion
    (t : Finalizing R me host userId questId quest proof seen ws s s') :
    s'.db.completions.find? (userId, questId) =
      t.atClaim.db.completions.find? (userId, questId) := by
  have hclaim := R.rely_same t.to_reward (.completion userId questId)
    (by simp [locksOf_append, Write.locks])
  have hcommit := R.rely_same t.to_commit (.completion userId questId)
    (by simp [locksOf_append, Write.locks])
  exact hcommit.trans hclaim

theorem Finalizing.same_user
    (t : Finalizing R me host userId questId quest proof seen ws s s') :
    s'.db.users.find? userId = t.atReward.db.users.find? userId :=
  R.rely_same t.to_commit (.user userId) (by simp [locksOf_append, Write.locks])

-- What was locked before a finalization is the same when it commits.
theorem Finalizing.same (t : Finalizing R me host userId questId quest proof seen ws s s')
    {l : Lock} (hl : l ∈ locksOf Stmt ws) : l.same s.db s'.db := by
  have hmem : ∀ ws', l ∈ locksOf Stmt (ws ++ ws') := fun ws' => by
    rw [locksOf_append]
    exact List.mem_append_left _ hl
  have huser := R.rely_same t.to_user l hl
  have hcompletion := R.rely_same t.to_completion l hl
  have hclaim := R.rely_same t.to_claim l hl
  have hreward := R.rely_same t.to_reward l (hmem _)
  have hcommit := R.rely_same t.to_commit l (hmem _)
  exact Lock.same_trans huser (Lock.same_trans hcompletion
    (Lock.same_trans hclaim (Lock.same_trans hreward hcommit)))

theorem Finalizing.view_user (t : Finalizing R me host userId questId quest proof seen ws s s')
    (db : World) : (view Stmt db t.writes).users.find? userId =
      (db.users.find? userId).map (rewardData host quest t.user t.now).apply := by
  simp [writes, World.apply]

theorem Finalizing.view_completion
    (t : Finalizing R me host userId questId quest proof seen ws s s') (db : World) :
    (view Stmt db t.writes).completions.find? (userId, questId) =
      (db.completions.find? (userId, questId)).map
        (completedData quest.quest proof t.completion t.now).apply := by
  simp [writes, World.apply]

-- The user is there when a finalization without earlier writes commits.
theorem Finalizing.still_user (t : Finalizing R me host userId questId quest proof seen [] s s') :
    ∃ row, s'.db.users.find? userId = some row := by
  obtain ⟨row, hrow⟩ := t.reward_found
  exact ⟨row, t.same_user.trans hrow⟩

-- A check-in that has written its three rows since `s` and counts them at `s'`.
structure CheckingIn (R : Rules Stmt) (me : ℕ) (userId questId locationId : Id)
    (body : QuestCheckInBody) (s s' : Store World Write) where
  createdAt : Time
  atCreate : Store World Write
  atPush : Store World Write
  atVisit : Store World Write
  to_create : R.rely me [] s atCreate
  unvisited : atCreate.db.checkIns.find? (userId, locationId) = none
  to_push : R.rely me [.checkIn userId locationId] atCreate atPush
  push_found : ∃ row, atPush.db.completions.find? (userId, questId) = some row
  to_visit : R.rely me [.checkIn userId locationId, .completion userId questId] atPush atVisit
  visit_found : ∃ row, atVisit.db.users.find? userId = some row
  to_count : R.rely me [.checkIn userId locationId, .completion userId questId, .user userId]
    atVisit s'

variable {locationId : Id} {body : QuestCheckInBody}

def CheckingIn.row (t : CheckingIn R me userId questId locationId body s s') :
    QuestLocationCheckIn :=
  ⟨userId, questId, locationId, body.position.latitude, body.position.longitude, body.accuracyM,
    t.createdAt⟩

def CheckingIn.writes (t : CheckingIn R me userId questId locationId body s s') : List Write :=
  [.checkInCreate t.row, .completionUpdate userId questId { checkedInLocationIds := some locationId },
    .userUpdate userId { placesVisited := .increment 1 }]

-- The locks of a check-in, taken one by one, hold from then on.
section Held

variable {s₁ : Store World Write} (t : CheckingIn R me userId questId locationId body s s₁)
  (hsame : ∀ l ∈ locksOf Stmt t.writes, Lock.same l s₁.db s'.db)

include hsame

theorem CheckingIn.still_unvisited : s'.db.checkIns.find? t.row.key = none := by
  have hpush := R.rely_same t.to_push (.checkIn userId locationId) (by simp)
  have hvisit := R.rely_same t.to_visit (.checkIn userId locationId) (by simp)
  have hcount := R.rely_same t.to_count (.checkIn userId locationId) (by simp)
  have hlast := hsame (.checkIn userId locationId) (by simp [writes, row, Write.locks])
  exact hlast.trans (hcount.trans (hvisit.trans (hpush.trans t.unvisited)))

theorem CheckingIn.still_started : (s'.db.completions.find? (userId, questId)).isSome := by
  obtain ⟨row, hrow⟩ := t.push_found
  have hvisit := R.rely_same t.to_visit (.completion userId questId) (by simp)
  have hcount := R.rely_same t.to_count (.completion userId questId) (by simp)
  have hlast := hsame (.completion userId questId) (by simp [writes, Write.locks])
  have hfound := hlast.trans (hcount.trans (hvisit.trans hrow))
  exact Option.isSome_of_eq_some hfound

theorem CheckingIn.still_user : ∃ row, s'.db.users.find? userId = some row := by
  obtain ⟨row, hrow⟩ := t.visit_found
  have hcount := R.rely_same t.to_count (.user userId) (by simp)
  have hlast := hsame (.user userId) (by simp [writes, Write.locks])
  exact ⟨row, hlast.trans (hcount.trans hrow)⟩

end Held

theorem CheckingIn.view_user (t : CheckingIn R me userId questId locationId body s s')
    (db : World) : (view Stmt db t.writes).users.find? userId =
      (db.users.find? userId).map (UserUpdate.apply { placesVisited := .increment 1 }) := by
  simp [writes, World.apply]

theorem CheckingIn.view_completion (t : CheckingIn R me userId questId locationId body s s')
    (db : World) : (view Stmt db t.writes).completions.find? (userId, questId) =
      (db.completions.find? (userId, questId)).map
        (QuestCompletionUpdate.apply { checkedInLocationIds := some locationId }) := by
  simp [writes, World.apply]

-- The check-ins at the quest that the transaction counts, its own one included.
def CheckingIn.counted (t : CheckingIn R me userId questId locationId body s s') : ℕ :=
  (view Stmt s'.db t.writes).checkIns.count fun c => c.userId = userId ∧ c.questId = questId

theorem wpTx_checkInTx
    {Q : List (Seen Stmt) → List Write → CheckInTxOutcome → Store World Write → Prop}
    (hdup : ∀ seen s' completed, R.rely me [] s s' → Q seen [] ⟨200, completed, none⟩ s')
    (hstep : ∀ seen s₁ s' (t : CheckingIn R me userId questId locationId body s s₁),
      t.counted < quest.locations.length → R.rely me (locksOf Stmt t.writes) s₁ s' →
        Q seen t.writes ⟨201, false, none⟩ s')
    (hlast : ∀ seen seen' s₁ s' (t : CheckingIn R me userId questId locationId body s s₁)
      (f : Finalizing R me host userId questId quest (some .checkIns) seen t.writes s₁ s'),
      quest.locations.length ≤ t.counted → Q seen' (t.writes ++ f.writes) ⟨201, true, some f.outcome⟩ s') :
    R.wpTx me Q (checkInTx host userId questId locationId body quest) [] [] s := by
  unfold checkInTx
  refine Rules.wpTx_query (fun _ => rfl) fun atDup to_dup => ?_
  split
  · refine Rules.wpTx_query (fun _ => rfl) fun atRow to_row => ?_
    exact fun s' hr => hdup _ s' _ (R.rely_trans to_dup (R.rely_trans to_row hr))
  · refine Rules.wpTx_call fun atCreate to_create _ _ _ he => ?_
    obtain ⟨unvisited, _, rfl⟩ := exec_checkInCreate he
    refine Rules.wpTx_call fun atPush to_push _ _ _ he => ?_
    obtain ⟨push_found, rfl⟩ := exec_completionUpdate he
    refine Rules.wpTx_call fun atVisit to_visit _ _ _ he => ?_
    obtain ⟨row, hrow, rfl, rfl⟩ := exec_userUpdate he
    refine Rules.wpTx_query (fun _ => rfl) fun s₁ to_count => ?_
    let t : CheckingIn R me userId questId locationId body s s₁ := {
      createdAt := atCreate.db.clock, atCreate, atPush, atVisit
      to_create := R.rely_trans to_dup to_create
      unvisited, to_push, push_found, to_visit
      visit_found := ⟨row, hrow⟩
      to_count }
    split
    · rename_i hcount
      apply Rules.wpTx_bind
      apply wpTx_finalizeQuestCompletionTx
      exact fun seen' s₂ f s' hr => hlast _ seen' s₁ s' t (f.later hr) hcount
    · rename_i hcount
      exact fun s' hr => hstep _ s₁ s' t (Nat.lt_of_not_le hcount) hr

end QuestsService

end SideQuest
