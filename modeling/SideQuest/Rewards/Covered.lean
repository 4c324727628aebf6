import SideQuest.Rewards.Ledger

-- The counters of a user cover the completed rows, over requests that run one at a time,
-- also when a finished quest is started again.

namespace SideQuest

open ReadCommitted QuestsService AchievementsService InvitesService AuthService

-- Nobody has less than the completed rows say, and no row or quest awards less than nothing.
structure Covered (w : World) : Prop where
  awards : ∀ c ∈ w.completions.rows, 0 ≤ c.xpAwarded
  rewards : ∀ quest ∈ w.quests.rows, 0 ≤ quest.xpReward
  questsDone : ∀ userId, w.completedQuests userId ≤ w.questsDoneOf userId
  xp : ∀ userId, w.questXp userId ≤ w.xpOf userId

abbrev coverRules : Rules Stmt := Rules.alone Covered

-- No quest has been started yet.
structure Unplayed (w : World) : Prop where
  completions : w.completions.rows = []
  rewards : ∀ quest ∈ w.quests.rows, 0 ≤ quest.xpReward
  xp : ∀ user ∈ w.users.rows, 0 ≤ user.xp

theorem Unplayed.covered {w : World} (h : Unplayed w) : Covered w where
  awards c hc := by
    rw [h.completions] at hc
    cases hc
  rewards := h.rewards
  questsDone userId := by simp [World.completedQuests, Table.count, h.completions]
  xp userId := by
    have hnothing : w.questXp userId = 0 := by simp [World.questXp, Table.sum, h.completions]
    rw [hnothing, World.xpOf]
    cases hfound : w.users.find? userId with
    | none => exact Int.le_refl 0
    | some user => exact h.xp user (Table.mem_of_find? hfound)

section Commits

variable {me : ℕ} {s : Store World Write} {ws : List Write}

-- A commit that adds to the counters what it adds to the rows, or more.
theorem Covered.commit (h : Covered s.db) (n : Id → ℕ) (x : Id → ℤ)
    (hawards : ∀ c ∈ (view Stmt s.db ws).completions.rows, 0 ≤ c.xpAwarded)
    (hdone : ∀ u, (view Stmt s.db ws).questsDoneOf u = s.db.questsDoneOf u + n u)
    (hcompleted : ∀ u, (view Stmt s.db ws).completedQuests u ≤ s.db.completedQuests u + n u)
    (hxp : ∀ u, (view Stmt s.db ws).xpOf u = s.db.xpOf u + x u)
    (hquestXp : ∀ u, (view Stmt s.db ws).questXp u ≤ s.db.questXp u + x u) :
    coverRules.Commits me s ws := by
  refine ⟨?_, trivial⟩
  show Covered _
  rw [Store.commit_db]
  refine ⟨hawards, ?_, fun u => ?_, fun u => ?_⟩
  · rw [view_quests]
    exact h.rewards
  · rw [hdone]
    exact (hcompleted u).trans (Nat.add_le_add_right (h.questsDone u) _)
  · rw [hxp]
    exact (hquestXp u).trans (Int.add_le_add_right (h.xp u) _)

-- A commit that only pays.
theorem Covered.commit_pay (h : Covered s.db) (x : Id → ℤ) (hx : ∀ u, 0 ≤ x u)
    (hrows : (view Stmt s.db ws).completions = s.db.completions)
    (hdone : ∀ u, (view Stmt s.db ws).questsDoneOf u = s.db.questsDoneOf u)
    (hxp : ∀ u, (view Stmt s.db ws).xpOf u = s.db.xpOf u + x u) :
    coverRules.Commits me s ws := by
  refine h.commit (fun _ => 0) x ?_ hdone (fun u => ?_) hxp fun u => ?_
  · rw [hrows]
    exact h.awards
  · rw [World.completedQuests, hrows]
    exact Nat.le_refl _
  · rw [World.questXp, hrows]
    exact Int.le_add_of_nonneg_right (hx u)

-- A commit that leaves the counters alone.
theorem Covered.commit_free (h : Covered s.db)
    (hawards : ∀ c ∈ (view Stmt s.db ws).completions.rows, 0 ≤ c.xpAwarded)
    (husers : (view Stmt s.db ws).users = s.db.users)
    (hcompleted : ∀ u, (view Stmt s.db ws).completedQuests u ≤ s.db.completedQuests u)
    (hquestXp : ∀ u, (view Stmt s.db ws).questXp u ≤ s.db.questXp u) :
    coverRules.Commits me s ws := by
  apply h.commit (fun _ => 0) (fun _ => 0) hawards
  · intro u
    rw [World.questsDoneOf, husers]
    rfl
  · exact hcompleted
  · intro u
    rw [World.xpOf, husers, Int.add_zero]
    rfl
  · intro u
    rw [Int.add_zero]
    exact hquestXp u

end Commits

theorem emits_covered (me : ℕ) : Emits coverRules me := by
  intro s e h
  have hs : Covered s.db := h
  exact hs.commit_pay (fun _ => 0) (fun _ => Int.le_refl 0) rfl (fun _ => rfl)
    fun _ => (Int.add_zero _).symm

section Quests

variable {me : ℕ} {host : Host} {userId questId : Id} {w : World} {s : Store World Write}
  {d : QuestCompletionUpdate}

theorem awards_update (h : ∀ c ∈ w.completions.rows, 0 ≤ c.xpAwarded)
    (hd : ∀ xp ∈ d.xpAwarded, 0 ≤ xp) (userId questId : Id) :
    ∀ c ∈ (w.apply (.completionUpdate userId questId d)).completions.rows, 0 ≤ c.xpAwarded := by
  intro c hc
  obtain ⟨row, hrow, rfl⟩ := List.mem_map.mp hc
  have hold : 0 ≤ row.xpAwarded := h row hrow
  split
  · cases hxp : d.xpAwarded with
    | none => simpa [QuestCompletionUpdate.apply, hxp] using hold
    | some xp => simpa [QuestCompletionUpdate.apply, hxp] using hd xp hxp
  · exact hold

-- A start takes the row out of the completed ones, if it was one.
theorem totals_restart (h : ∀ c ∈ w.completions.rows, 0 ≤ c.xpAwarded)
    (hd : d.status = some .STARTED) (userId questId u : Id) :
    (w.apply (.completionUpdate userId questId d)).completedQuests u ≤ w.completedQuests u ∧
      (w.apply (.completionUpdate userId questId d)).questXp u ≤ w.questXp u := by
  simp only [World.completedQuests, World.questXp, World.apply]
  constructor
  · apply Table.count_modify_le
    simp [QuestCompletionUpdate.apply, hd]
  · apply Table.sum_modify_le
    intro c hc
    simp only [QuestCompletionUpdate.apply, hd, Option.getD_some, reduceCtorEq, and_false, if_false]
    split
    · exact h c hc
    · exact Int.le_refl 0

theorem wp_start_covered :
    coverRules.wp me (fun _ _ => True) (start userId questId) s := by
  apply wp_start (emits_covered me)
  · intro s₁ s' quest row now _ _ _ hr _
    have h : Covered s'.db := Rules.rely_inv _ hr
    have htotals := totals_restart h.awards (d := { status := some .STARTED, startedAt := some now })
      rfl userId questId
    exact h.commit_free (awards_update h.awards (fun _ hxp => by cases hxp) userId questId) rfl
      (fun u => (htotals u).1) fun u => (htotals u).2
  · intro s' hr hnone _
    have h : Covered s'.db := Rules.rely_inv _ hr
    let row : QuestCompletion := { userId := userId, questId := questId, startedAt := s'.db.clock }
    have htotals := completions_create row hnone (by simp [row])
    refine h.commit_free (fun c hc => ?_) rfl (fun u => (htotals u).1.le) fun u => (htotals u).2.le
    rcases Table.mem_of_mem_insert hc with hold | rfl
    · exact h.awards c hold
    · exact Int.le_refl 0

theorem reward_nonneg_of_loaded {quest : QuestWithLocations}
    (h : Loaded coverRules questId quest) : 0 ≤ quest.quest.xpReward := by
  obtain ⟨s', hs', hfound, _⟩ := h
  have hcovered : Covered s'.db := hs'
  exact hcovered.rewards quest.quest (Table.mem_of_find? hfound)

-- What a finalization does to the rows, seen from where it is made.
theorem totals_finalize {s₀ s' : Store World Write} {quest : QuestWithLocations}
    {proof : Option CompletionProof} {seen : List (Seen Stmt)} {ws : List Write}
    (t : Finalizing coverRules me host userId questId quest proof seen ws s₀ s')
    (h : ∀ c ∈ w.completions.rows, 0 ≤ c.xpAwarded) (hreward : 0 ≤ quest.quest.xpReward)
    (hfound : w.completions.find? (userId, questId) = some t.completion) :
    (∀ c ∈ (view Stmt w t.writes).completions.rows, 0 ≤ c.xpAwarded) ∧
      ∀ u, (view Stmt w t.writes).questXp u =
        w.questXp u + if userId = u then quest.quest.xpReward else 0 := by
  let d := completedData quest.quest proof t.completion t.now
  have hd : ∀ xp ∈ d.xpAwarded, 0 ≤ xp := by
    rintro xp ⟨⟩
    exact hreward
  constructor
  · exact awards_update h hd userId questId
  · intro u
    exact (completions_complete hfound t.notCompleted (d := d) rfl rfl).2

theorem wp_complete_covered {proof : Option CompletionProof} :
    coverRules.wp me (fun _ _ => True) (complete host userId questId proof) s := by
  refine wp_complete (emits_covered me) fun quest s₁ s' t hloaded => ?_
  have h : Covered s'.db := Rules.rely_inv _ t.to_commit
  obtain ⟨row, hrow⟩ := t.still_user
  have hcompletion := completion_alone t
  have htotals (u : Id) := t.totals (u := u) hrow hcompletion
  obtain ⟨hawards, hquestXp⟩ :=
    totals_finalize t h.awards (reward_nonneg_of_loaded hloaded) hcompletion
  exact h.commit _ _ hawards (fun u => (htotals u).1) (fun u => (htotals u).2.1.le)
    (t.xpOf_paid hrow) fun u => (hquestXp u).le

theorem wp_checkInLocation_covered {locationId : Id} {body : QuestCheckInBody} :
    coverRules.wp me (fun _ _ => True) (checkInLocation host userId questId locationId body) s := by
  let push : QuestCompletionUpdate := { checkedInLocationIds := some locationId }
  have hpush : ∀ xp ∈ push.xpAwarded, 0 ≤ xp := fun _ hxp => by cases hxp
  apply wp_checkInLocation (emits_covered me)
  · intro quest s₁ s₂ s' t _ _ _ hr
    have h : Covered s'.db := Rules.rely_inv _ hr
    have htotals := t.totals s'.db
    have hquestXp (u : Id) : (view Stmt s'.db t.writes).questXp u = s'.db.questXp u :=
      (completions_keep s'.db userId questId (d := push) rfl rfl u).2
    refine h.commit (fun _ => 0) (fun _ => 0) ?_ (fun u => (htotals u).1)
      (fun u => (htotals u).2.1.le) (fun u => ?_) fun u => ?_
    · exact awards_update h.awards hpush userId questId
    · rw [t.xpOf_view, Int.add_zero]
    · rw [hquestXp, Int.add_zero]
  · intro quest seen s₁ s₂ s' t fin hloaded _ _
    have h : Covered s'.db := Rules.rely_inv _ fin.to_commit
    have hlast := lastCheckIn_totals t fin
    have hpushed : ∀ c ∈ (view Stmt s'.db t.writes).completions.rows, 0 ≤ c.xpAwarded :=
      awards_update h.awards hpush userId questId
    obtain ⟨hawards, hquestXp⟩ :=
      totals_finalize fin hpushed (reward_nonneg_of_loaded hloaded) (completion_alone fin)
    have hkept (u : Id) : (view Stmt s'.db t.writes).questXp u = s'.db.questXp u :=
      (completions_keep s'.db userId questId (d := push) rfl rfl u).2
    simp only [hkept] at hquestXp
    simp only [← view_append] at hawards hquestXp
    exact h.commit _ _ hawards (fun u => (hlast u).1) (fun u => (hlast u).2.1.le)
      (fun u => (hlast u).2.2.2) fun u => (hquestXp u).le

end Quests

theorem achievementCommits_covered (me : ℕ) (userId : Id) :
    AchievementCommits coverRules me userId where
  levelUp s _ _ h := emits_covered me s _ h
  free achievement s₀ s s' t _ hr _ hfree := by
    have h : Covered s'.db := Rules.rely_inv _ t.to_next
    refine h.commit_pay _ (fun u => ?_) (completions_unlock t s'.db)
      (fun u => (rows_unlock t s'.db u).2.2.2) fun u => t.xpOf_free hfree s'.db
    split
    · exact le_max_left 0 _
    · exact Int.le_refl 0
  paid achievement s₀ s s₁ s' t p _ hr _ hpos := by
    have h : Covered s'.db := Rules.rely_inv _ p.to_commit
    refine h.commit_pay _ (fun u => ?_) (completions_unlock t s'.db)
      (questsDoneOf_paid t p.user s'.db) fun u => t.xpOf_paid p hpos
    split
    · exact le_max_left 0 _
    · exact Int.le_refl 0
  unlocked _ _ _ _ s' _ _ _ _ hr := emits_covered me s' _ (Rules.rely_inv _ hr)
  progress _ _ _ _ h _ := Covered.commit_pay h (fun _ => 0) (fun _ => Int.le_refl 0) rfl
    (fun _ => rfl) fun _ => (Int.add_zero _).symm
  create _ _ _ h _ _ := Covered.commit_pay h (fun _ => 0) (fun _ => Int.le_refl 0) rfl
    (fun _ => rfl) fun _ => (Int.add_zero _).symm

theorem registerCommits_covered (me : ℕ) (host : Host) (dto : RegisterDto) (ids : FreshIds) :
    RegisterCommits coverRules me host dto ids where
  emits := emits_covered me
  plain s s' r _ := by
    have h : Covered s'.db := Rules.rely_inv _ r.to_next
    have hfree := registering_alone r
    refine h.commit_pay (fun _ => 0) (fun _ => Int.le_refl 0) rfl
      (fun _ => questsDoneOf_create hfree rfl) fun u => ?_
    rw [Int.add_zero]
    exact xpOf_create hfree rfl
  referral token s s' t _ := by
    have h : Covered s'.db := Rules.rely_inv _ t.award.to_commit
    obtain ⟨hcompletions, _, _⟩ := rows_redeem t s'.db
    refine h.commit_pay _ (fun u => ?_) hcompletions (questsDoneOf_redeem t)
      fun u => t.xpOf_view (inviterXp_alone t)
    have hbonus : 0 ≤ REFERRAL_XP := by decide
    split <;> split <;> omega
  session _ _ h _ := by
    refine Covered.commit_pay h (fun _ => 0) (fun _ => Int.le_refl 0) rfl
      (fun _ => questsDoneOf_keep rfl) fun u => ?_
    rw [Int.add_zero]
    exact xpOf_keep rfl

-- Whatever the call, it leaves the rows covered.
theorem Covered.after (host : Host) (call : LedgerCall) {w : World} (h : Covered w) :
    Covered (call.after host w) := by
  have halone {α : Type} {p : Request α} (hp : coverRules.wp 0 (fun _ _ => True) p ⟨w, []⟩) :
      Covered (p.alone w).2 := (Rules.wp_alone h hp).1
  cases call with
  | register dto ids => exact halone (wp_register (registerCommits_covered 0 host dto ids))
  | start userId questId => exact halone wp_start_covered
  | complete userId questId proof => exact halone wp_complete_covered
  | checkInLocation userId questId locationId body => exact halone wp_checkInLocation_covered
  | evaluateForUser userId => exact halone (wp_evaluateForUser (achievementCommits_covered 0 userId))
  | wait elapsed =>
      exact { awards := h.awards, rewards := h.rewards, questsDone := h.questsDone, xp := h.xp }

end SideQuest
