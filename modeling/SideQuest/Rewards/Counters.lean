import SideQuest.Rewards.Ledger
import SideQuest.Friendships.OnePerPair
import SideQuest.Invites.Lifecycle
import SideQuest.Auth.Requests
import SideQuest.Model.Schedules

-- The counters of a user that hold over every interleaving of all the requests: the places
-- visited are the check-ins, no completed row is missing from the quests done, and the
-- current streak is never longer than the longest.

namespace SideQuest

open ReadCommitted QuestsService AchievementsService InvitesService AuthService
  FriendshipsService StreakRolloverService

def World.visits (w : World) (userId : Id) : ℕ := w.checkIns.count fun c => c.userId = userId

structure CountersHold (w : World) : Prop where
  placesVisited : ∀ userId, w.column User.placesVisited userId = w.visits userId
  questsDone : ∀ userId, w.completedQuests userId ≤ w.questsDoneOf userId
  streak : ∀ user ∈ w.users.rows, user.streakDays ≤ user.longestStreakDays

abbrev counterContract : Contract Stmt World Write :=
  .ofInv (fun s => CountersHold s.db) Guard.none

section Streaks

variable {w : World}

theorem streak_update {id : Id} {d : UserUpdate}
    (h : ∀ user ∈ w.users.rows, user.streakDays ≤ user.longestStreakDays)
    (hd : ∀ user : User, user.streakDays ≤ user.longestStreakDays →
      (d.apply user).streakDays ≤ (d.apply user).longestStreakDays) :
    ∀ user ∈ (w.apply (.userUpdate id d)).users.rows,
      user.streakDays ≤ user.longestStreakDays := by
  intro user huser
  obtain ⟨row, hrow, rfl⟩ := List.mem_map.mp huser
  have hold := h row hrow
  split
  · exact hd row hold
  · exact hold

-- A finalization stores a longest streak that covers the new one.
theorem streak_reward {host : Host} {userId : Id} {quest : QuestWithLocations} {user : User}
    {now : Time} (h : ∀ user ∈ w.users.rows, user.streakDays ≤ user.longestStreakDays) :
    ∀ row ∈ (w.apply (rewardWrite host userId quest user now)).users.rows,
      row.streakDays ≤ row.longestStreakDays :=
  streak_update h fun _ _ => Nat.le_max_right _ _

end Streaks

section Commits

variable {me : ℕ} {s : Store World Write} {ws : List Write}

-- A commit that counts the places and quests that it adds.
theorem CountersHold.commit (h : CountersHold s.db) (places quests : Id → ℕ)
    (hplaces : ∀ u, (view Stmt s.db ws).column User.placesVisited u =
      s.db.column User.placesVisited u + places u)
    (hvisits : ∀ u, (view Stmt s.db ws).visits u = s.db.visits u + places u)
    (hdone : ∀ u, (view Stmt s.db ws).questsDoneOf u = s.db.questsDoneOf u + quests u)
    (hcompleted : ∀ u, (view Stmt s.db ws).completedQuests u ≤ s.db.completedQuests u + quests u)
    (hstreak : ∀ user ∈ (view Stmt s.db ws).users.rows,
      user.streakDays ≤ user.longestStreakDays) : counterContract.rules.Commits me s ws := by
  refine ⟨?_, trivial⟩
  show CountersHold _
  rw [Store.commit_db]
  refine ⟨fun u => ?_, fun u => ?_, hstreak⟩
  · rw [hplaces, hvisits, h.placesVisited]
  · rw [hdone]
    exact (hcompleted u).trans (Nat.add_le_add_right (h.questsDone u) _)

-- A commit of other rows.
theorem CountersHold.commit_other (h : CountersHold s.db)
    (husers : (view Stmt s.db ws).users = s.db.users)
    (hcheckIns : (view Stmt s.db ws).checkIns = s.db.checkIns)
    (hcompleted : ∀ u, (view Stmt s.db ws).completedQuests u ≤ s.db.completedQuests u) :
    counterContract.rules.Commits me s ws := by
  refine h.commit (fun _ => 0) (fun _ => 0) (fun u => ?_) (fun u => ?_) (fun u => ?_) hcompleted ?_
  · rw [World.column, husers]
    rfl
  · rw [World.visits, hcheckIns]
    rfl
  · rw [World.questsDoneOf, husers]
    rfl
  · rw [husers]
    exact h.streak

-- An update of a user that leaves the counters alone.
structure UserUpdate.KeepsCounters (d : UserUpdate) : Prop where
  placesVisited : d.placesVisited = .keep
  questsDone : d.questsDone = .keep
  streakDays : d.streakDays = none
  longestStreakDays : d.longestStreakDays = none

theorem UserUpdate.KeepsCounters.streak {d : UserUpdate} (hd : d.KeepsCounters) {user : User}
    (h : user.streakDays ≤ user.longestStreakDays) :
    (d.apply user).streakDays ≤ (d.apply user).longestStreakDays := by
  simpa [UserUpdate.apply, hd.streakDays, hd.longestStreakDays] using h

theorem placesVisited_keep {w : World} {id : Id} {d : UserUpdate} (hd : d.placesVisited = .keep)
    (u : Id) : (w.apply (.userUpdate id d)).column User.placesVisited u =
      w.column User.placesVisited u :=
  column_keep fun user => by simp [UserUpdate.apply, hd, FieldUpdate.apply]

theorem CountersHold.userUpdate {w : World} (h : CountersHold w) {id : Id} {d : UserUpdate}
    (hd : d.KeepsCounters) : CountersHold (w.apply (.userUpdate id d)) where
  placesVisited u := (placesVisited_keep hd.placesVisited u).trans (h.placesVisited u)
  questsDone u := by
    rw [questsDoneOf_keep hd.questsDone]
    exact h.questsDone u
  streak := streak_update h.streak fun _ => hd.streak

theorem CountersHold.commits (h : CountersHold (view Stmt s.db ws)) :
    counterContract.rules.Commits me s ws := by
  refine ⟨?_, trivial⟩
  show CountersHold _
  rwa [Store.commit_db]

theorem CountersHold.userCreate {w : World} (h : CountersHold w) {row : User}
    (hfree : w.users.find? row.id = none) (hplaces : row.placesVisited = 0)
    (hdone : row.questsDone = 0) (hstreak : row.streakDays ≤ row.longestStreakDays) :
    CountersHold (w.apply (.userCreate row)) where
  placesVisited u := (column_create hfree hplaces).trans (h.placesVisited u)
  questsDone u := by
    rw [questsDoneOf_create hfree hdone]
    exact h.questsDone u
  streak user huser := by
    rcases Table.mem_of_mem_insert huser with hold | rfl
    · exact h.streak user hold
    · exact hstreak

end Commits

theorem emits_counters (me : ℕ) : Emits counterContract.rules me := fun _ _ h =>
  CountersHold.commit_other h rfl rfl fun _ => Nat.le_refl _

section Quests

variable {me : ℕ} {host : Host} {userId questId : Id} {w : World} {s s' : Store World Write}

-- A completion adds at most one row to those completed.
theorem completedQuests_le (w : World) (userId questId : Id) (d : QuestCompletionUpdate) (u : Id) :
    (w.apply (.completionUpdate userId questId d)).completedQuests u ≤
      w.completedQuests u + if userId = u then 1 else 0 := by
  simp only [World.completedQuests, Table.count_eq_sum, World.apply]
  cases hfound : w.completions.find? (userId, questId) with
  | none =>
      rw [Table.sum_modify_of_eq _ _ _ _ _ fun row hrow => by simp [hfound] at hrow]
      exact Nat.le_add_right _ _
  | some row =>
      have hsum := Table.sum_modify hfound d.apply d.key_apply
        fun c => if decide (c.userId = u ∧ c.status = .COMPLETED) = true then 1 else 0
      have hkey : row.key = (userId, questId) := Table.key_of_find? hfound
      have hrow : row.userId = userId := (Prod.mk.inj hkey).1
      have hshare : (if decide ((d.apply row).userId = u ∧ (d.apply row).status = .COMPLETED) = true
          then 1 else 0) ≤ if userId = u then 1 else 0 := by
        have hsame : (d.apply row).userId = userId := hrow
        by_cases hu : userId = u
        · simp only [hsame, hu, if_true]
          split <;> omega
        · simp [hsame, hu]
      omega

theorem completedQuests_restart (w : World) (userId questId : Id) {d : QuestCompletionUpdate}
    (hd : d.status = some .STARTED) (u : Id) :
    (w.apply (.completionUpdate userId questId d)).completedQuests u ≤ w.completedQuests u := by
  refine Table.count_modify_le _ _ _ d.key_apply fun row hrow => ?_
  simp [QuestCompletionUpdate.apply, hd] at hrow

-- What a finalization does to the counters, where it is made.
theorem QuestsService.Finalizing.counters {R : Rules Stmt} {quest : QuestWithLocations}
    {proof : Option CompletionProof} {seen : List (Seen Stmt)} {ws : List Write}
    (t : Finalizing R me host userId questId quest proof seen ws s s') {user : User}
    (huser : w.users.find? userId = some user)
    (hstreak : ∀ user ∈ w.users.rows, user.streakDays ≤ user.longestStreakDays) :
    (∀ u, (view Stmt w t.writes).column User.placesVisited u = w.column User.placesVisited u) ∧
      (∀ u, (view Stmt w t.writes).questsDoneOf u =
        w.questsDoneOf u + if userId = u then 1 else 0) ∧
      (∀ u, (view Stmt w t.writes).completedQuests u ≤
        w.completedQuests u + if userId = u then 1 else 0) ∧
      ∀ user ∈ (view Stmt w t.writes).users.rows, user.streakDays ≤ user.longestStreakDays := by
  refine ⟨fun u => ?_, fun u => ?_, fun u => ?_, ?_⟩
  · exact placesVisited_keep (d := rewardData host quest t.user t.now) rfl u
  · exact questsDoneOf_increment (d := rewardData host quest t.user t.now) rfl huser
  · exact completedQuests_le w userId questId _ u
  · exact streak_reward (w := w.apply (claimWrite userId questId quest proof t.completion t.now))
      hstreak

-- A check-in adds one place for its user, as a row and as a count.
theorem QuestsService.CheckingIn.counters {R : Rules Stmt} {locationId : Id}
    {body : QuestCheckInBody} {s₁ : Store World Write}
    (t : CheckingIn R me userId questId locationId body s s₁)
    (hsame : ∀ l ∈ locksOf Stmt t.writes, Lock.same l s₁.db s'.db)
    (hstreak : ∀ user ∈ s'.db.users.rows, user.streakDays ≤ user.longestStreakDays) :
    (∀ u, (view Stmt s'.db t.writes).column User.placesVisited u =
      s'.db.column User.placesVisited u + if userId = u then 1 else 0) ∧
      (∀ u, (view Stmt s'.db t.writes).visits u = s'.db.visits u + if userId = u then 1 else 0) ∧
      (∀ u, (view Stmt s'.db t.writes).questsDoneOf u = s'.db.questsDoneOf u) ∧
      (∀ u, (view Stmt s'.db t.writes).completedQuests u = s'.db.completedQuests u) ∧
      ∀ user ∈ (view Stmt s'.db t.writes).users.rows,
        user.streakDays ≤ user.longestStreakDays := by
  obtain ⟨row, hrow⟩ := t.still_user hsame
  have htotals := t.totals s'.db
  refine ⟨fun u => ?_, fun u => ?_, fun u => (htotals u).1, fun u => (htotals u).2.1, ?_⟩
  · let w := (s'.db.apply (.checkInCreate t.row)).apply
      (.completionUpdate userId questId { checkedInLocationIds := some locationId })
    have hfound : w.users.find? userId = some row := hrow
    exact column_add (d := { placesVisited := .increment 1 }) hfound rfl
  · have hinsert := Table.count_insert (t.still_unvisited hsame) fun c => decide (c.userId = u)
    have hrowUser : t.row.userId = userId := rfl
    have hvisits : (view Stmt s'.db t.writes).visits u =
        (s'.db.checkIns.insert t.row).count fun c => decide (c.userId = u) := rfl
    rw [hvisits, hinsert, hrowUser]
    simp [World.visits]
  · exact streak_update (w := (s'.db.apply (.checkInCreate t.row)).apply (.completionUpdate userId
      questId { checkedInLocationIds := some locationId })) hstreak fun _ h => h

theorem questCommits_counters (me : ℕ) (host : Host) (userId questId : Id) :
    QuestCommits counterContract.rules me host userId questId where
  emits := emits_counters me
  again s row now h _ := CountersHold.commit_other h rfl rfl
    (completedQuests_restart s.db userId questId rfl)
  new s h hfree _ := CountersHold.commit_other h rfl rfl fun u => by
    have hcreate := completions_create (w := s.db)
      { userId := userId, questId := questId, startedAt := s.db.clock } hfree (by simp) u
    exact hcreate.1.le
  finalize quest proof s s' t _ := by
    have h : CountersHold s'.db := Rules.rely_inv _ t.to_commit
    obtain ⟨row, hrow⟩ := t.still_user
    obtain ⟨hplaces, hdone, hcompleted, hstreak⟩ := t.counters hrow h.streak
    exact h.commit (fun _ => 0) _ hplaces (fun _ => rfl) hdone hcompleted hstreak
  step quest locationId body s s₁ s' t _ _ _ hr := by
    have h : CountersHold s'.db := Rules.rely_inv _ hr
    obtain ⟨hplaces, hvisits, hdone, hcompleted, hstreak⟩ :=
      t.counters (Rules.rely_same _ hr) h.streak
    exact h.commit _ (fun _ => 0) hplaces hvisits hdone (fun u => (hcompleted u).le) hstreak
  last quest locationId body seen s s₁ s' t fin _ _ _ := by
    have h : CountersHold s'.db := Rules.rely_inv _ fin.to_commit
    have hsame : ∀ l ∈ locksOf Stmt t.writes, Lock.same l s₁.db s'.db := fun l hl => fin.same hl
    obtain ⟨hplaces, hvisits, hdone, hcompleted, hstreak⟩ := t.counters hsame h.streak
    obtain ⟨row, hrow⟩ := t.still_user hsame
    have hview := t.view_user s'.db
    rw [hrow, Option.map_some] at hview
    obtain ⟨hplaces', hdone', hcompleted', hstreak'⟩ := fin.counters hview hstreak
    let once (u : Id) : ℕ := if userId = u then 1 else 0
    refine h.commit once once (fun u => ?_) (fun u => ?_) (fun u => ?_) (fun u => ?_) ?_
    · rw [view_append, hplaces', hplaces]
    · rw [view_append]
      exact hvisits u
    · rw [view_append, hdone', hdone]
    · rw [view_append, ← hcompleted]
      exact hcompleted' u
    · rw [view_append]
      exact hstreak'

end Quests

theorem CountersHold.unlock {R : Rules Stmt} {me : ℕ} {userId : Id} {achievement : Achievement}
    {s s' : Store World Write} {w : World} (h : CountersHold w)
    (t : Unlocking R me userId achievement s s') : CountersHold (w.apply t.write) := by
  rcases t.upsert with ⟨_, _, hw⟩ | ⟨_, _, hw⟩ <;> rw [hw] <;>
    exact ⟨h.placesVisited, h.questsDone, h.streak⟩

theorem achievementCommits_counters (me : ℕ) (userId : Id) :
    AchievementCommits counterContract.rules me userId where
  levelUp s _ _ h := emits_counters me s _ h
  free achievement s₀ s s' t _ _ _ _ := by
    have h : CountersHold s'.db := Rules.rely_inv _ t.to_next
    exact CountersHold.commits (h.unlock t)
  paid achievement s₀ s s₁ s' t p _ _ _ _ := by
    have h : CountersHold s'.db := Rules.rely_inv _ p.to_commit
    exact CountersHold.commits (((h.unlock t).userUpdate ⟨rfl, rfl, rfl, rfl⟩).userUpdate
      ⟨rfl, rfl, rfl, rfl⟩)
  unlocked _ _ _ _ s' _ _ _ _ hr := emits_counters me s' _ (Rules.rely_inv _ hr)
  progress _ _ _ _ h _ := CountersHold.commit_other h rfl rfl fun _ => Nat.le_refl _
  create _ _ _ h _ _ := CountersHold.commit_other h rfl rfl fun _ => Nat.le_refl _

section Accounts

variable {me : ℕ} {host : Host} {w : World} {s s' : Store World Write}

-- A friendship or an invite leaves the counters alone.
theorem CountersHold.of_rows {w' : World} (h : CountersHold w) (husers : w'.users = w.users)
    (hcheckIns : w'.checkIns = w.checkIns) (hcompletions : w'.completions = w.completions) :
    CountersHold w' := by
  refine ⟨fun u => ?_, fun u => ?_, ?_⟩
  · rw [World.column, World.visits, husers, hcheckIns]
    exact h.placesVisited u
  · rw [World.completedQuests, World.questsDoneOf, husers, hcompletions]
    exact h.questsDone u
  · rw [husers]
    exact h.streak

theorem CountersHold.redeem {R : Rules Stmt} {dto : RegisterDto} {ids : FreshIds} {token : String}
    (t : Redeeming R me host dto ids token s s') (h : CountersHold w)
    (hfree : w.users.find? ids.user = none) : CountersHold (view Stmt w t.writes) := by
  have hcreate : CountersHold (w.apply (.userCreate (newUser host dto ids.user))) :=
    h.userCreate hfree rfl rfl (Nat.le_refl 0)
  have hclaim : CountersHold ((w.apply (.userCreate (newUser host dto ids.user))).apply
      t.claim.write) := hcreate.of_rows rfl rfl rfl
  have hbefriend : CountersHold (view Stmt w
      ([.userCreate (newUser host dto ids.user), t.claim.write] ++ t.befriend.writes)) := by
    rw [view_append]
    rcases t.befriend.made with ⟨_, _, hw⟩ | ⟨_, _, _, hw⟩ <;> rw [hw] <;>
      exact hclaim.of_rows rfl rfl rfl
  rw [Redeeming.writes, view_append]
  exact (hbefriend.userUpdate ⟨rfl, rfl, rfl, rfl⟩).userUpdate ⟨rfl, rfl, rfl, rfl⟩

theorem registerCommits_counters (me : ℕ) (host : Host) (dto : RegisterDto) (ids : FreshIds) :
    RegisterCommits counterContract.rules me host dto ids where
  emits := emits_counters me
  plain s s' r _ := by
    have h : CountersHold s'.db := Rules.rely_inv _ r.to_next
    have hfree : s'.db.users.find? ids.user = none :=
      (Rules.rely_same _ r.to_next (.user ids.user) (by simp [Write.locks, newUser])).trans r.free
    exact CountersHold.commits (h.userCreate hfree rfl rfl (Nat.le_refl 0))
  referral token s s' t _ := by
    have h : CountersHold s'.db := Rules.rely_inv _ t.award.to_commit
    exact CountersHold.commits (h.redeem t t.user_free)
  session _ _ h _ := CountersHold.commits (CountersHold.userUpdate h ⟨rfl, rfl, rfl, rfl⟩)

theorem wp_rollover_counters (me : ℕ) (s : Store World Write) :
    counterContract.rules.wp me (fun _ _ => True) resetStaleStreaksUtc s := by
  unfold resetStaleStreaksUtc
  refine Rules.wp_query (fun _ => rfl) fun s₁ h₁ => ?_
  refine Rules.wp_call fun s₂ h₂ _ _ _ he => ?_
  have h : CountersHold s₂.db := Rules.rely_inv _ h₂
  cases he
  refine ⟨CountersHold.commits ?_, fun _ _ => trivial⟩
  -- one stale user after the other
  generalize s₂.db.users.rows.filter _ = stale
  generalize s₂.db = w at h
  induction stale generalizing w with
  | nil => exact h
  | cons user rest ih =>
      refine ih _ ⟨fun u => ?_, fun u => ?_, ?_⟩
      · exact (placesVisited_keep rfl u).trans (h.placesVisited u)
      · rw [apply_eq, questsDoneOf_keep rfl]
        exact h.questsDone u
      · exact streak_update h.streak fun _ _ => Nat.zero_le _

end Accounts

-- The requests of players on quests (`start`, `complete`, `checkInLocation`), achievements,
-- friendships, invites, registration and sessions, and the job that runs at midnight. Edits and
-- ratings of quests are not among them: a deleted quest takes its check-ins with it.
inductive AppRequest (host : AuthHost) : Request Unit → Prop where
  | quest {userId questId : Id} {p : Request Unit}
      (h : QuestRequest host.toHost userId questId p) : AppRequest host p
  | evaluateForUser (userId : Id) : AppRequest host (evaluateForUser userId)
  | friendship {p : Request Unit} (h : FriendshipRequest p) : AppRequest host p
  -- sending, cancelling and registering
  | invite {p : Request Unit} (h : InviteRequest host.toHost p) : AppRequest host p
  | login (dto : LoginDto) : AppRequest host (login host dto).void
  | refresh (refreshToken : String) : AppRequest host (refresh host refreshToken).void
  | logout (userId : Id) : AppRequest host (logout userId)
  | resetStaleStreaksUtc : AppRequest host resetStaleStreaksUtc

section Run

variable {me : ℕ} {host : AuthHost} {s : Store World Write}

theorem FriendshipRequest.wp_counters {p : Request Unit} (hp : FriendshipRequest p) :
    counterContract.rules.wp me (fun _ _ => True) p s := by
  have hother {s' : Store World Write} {ws : List Write} (h : counterContract.rules.inv s')
      (husers : (view Stmt s'.db ws).users = s'.db.users)
      (hcheckIns : (view Stmt s'.db ws).checkIns = s'.db.checkIns)
      (hcompletions : (view Stmt s'.db ws).completions = s'.db.completions) :
      counterContract.rules.Commits me s' ws :=
    CountersHold.commits (CountersHold.of_rows h husers hcheckIns hcompletions)
  cases hp with
  | request requesterId addresseeId newId =>
      exact Rules.wp_void (wp_request (emits_counters me) fun s₁ s' now _ _ hr _ _ =>
        hother (Rules.rely_inv _ hr) rfl rfl rfl)
  | accept userId friendshipId =>
      exact Rules.wp_void (wp_accept fun s₁ s' f row now _ _ _ _ hr _ _ =>
        ⟨hother (Rules.rely_inv _ hr) rfl rfl rfl,
          fun s'' hr' => emits_counters me s'' _ (Rules.rely_inv _ hr')⟩)
  | block userId otherUserId newId =>
      apply Rules.wp_void
      refine Rules.wp_mono (fun _ _ _ => trivial) (wp_block (P := fun _ _ => True) ?_ ?_)
      · exact fun s₁ s' now _ _ hr _ _ => hother (Rules.rely_inv _ hr) rfl rfl rfl
      · exact fun s₁ s' f row now _ _ _ hr _ =>
          ⟨hother (Rules.rely_inv _ hr) rfl rfl rfl, fun _ _ => trivial⟩
  | remove userId friendshipId =>
      exact wp_remove fun s₁ s' f row _ _ _ hr _ => hother (Rules.rely_inv _ hr) rfl rfl rfl

theorem InviteRequest.wp_counters {p : Request Unit} (hp : InviteRequest host.toHost p) :
    counterContract.rules.wp me (fun _ _ => True) p s := by
  cases hp with
  | createInvite inviterId rawEmail id token =>
      apply Rules.wp_void
      apply wp_createInvite
      · intro s' pending h hpending
        refine CountersHold.commits ?_
        have hs' : CountersHold s'.db := h
        clear h hpending
        generalize s'.db = w at hs'
        induction pending generalizing w with
        | nil => exact hs'
        | cons i rest ih => exact ih _ (hs'.of_rows rfl rfl rfl)
      · exact fun s' h _ _ _ _ => CountersHold.commits (CountersHold.of_rows h rfl rfl rfl)
  | cancel inviterId inviteId =>
      exact wp_cancel fun s₁ s' inv _ _ _ hr _ =>
        CountersHold.commits (CountersHold.of_rows (Rules.rely_inv _ hr) rfl rfl rfl)
  | register dto ids => exact Rules.wp_void (wp_register (registerCommits_counters me _ dto ids))

theorem AppRequest.wp_counters {p : Request Unit} (hp : AppRequest host p) :
    counterContract.rules.wp me (fun _ _ => True) p s := by
  have hsession {s' : Store World Write} {id : Id} {d : UserUpdate} (hd : d.KeepsCounters)
      (h : counterContract.rules.inv s') :
      counterContract.rules.Commits me s' [.userUpdate id d] :=
    CountersHold.commits (CountersHold.userUpdate h hd)
  cases hp with
  | quest h => exact h.wp (questCommits_counters me host.toHost _ _)
  | evaluateForUser userId => exact wp_evaluateForUser (achievementCommits_counters me userId)
  | friendship h => exact h.wp_counters
  | invite h => exact h.wp_counters
  | login dto =>
      exact Rules.wp_void (wp_login (fun _ _ _ h _ => hsession ⟨rfl, rfl, rfl, rfl⟩ h)
        fun _ _ _ h _ => hsession ⟨rfl, rfl, rfl, rfl⟩ h)
  | refresh refreshToken =>
      exact Rules.wp_void (wp_refresh fun _ _ _ _ _ _ hr _ =>
        hsession ⟨rfl, rfl, rfl, rfl⟩ (Rules.rely_inv _ hr))
  | logout userId => exact wp_logout fun _ h _ => hsession ⟨rfl, rfl, rfl, rfl⟩ h
  | resetStaleStreaksUtc => exact wp_rollover_counters me s

end Run

-- The counters hold in every state that any requests reach, in any order of their steps
-- and wherever some are killed.
theorem countersHold_of_reaches (host : AuthHost) {w : World} (hw : CountersHold w)
    {s : System Stmt World Write ApiError}
    (h : System.Reaches (AppRequest host) Guard.none (System.init w) s) :
    CountersHold s.store.db := by
  have hsafe := System.Reaches.safe (C := counterContract) (fun p hp me st _ => hp.wp_counters)
    (fun a st hst => ⟨CountersHold.of_rows hst rfl rfl rfl, trivial⟩) (System.init_safe hw) h
  exact hsafe.1.inv

theorem countersHold_onTheTrail : CountersHold onTheTrail where
  placesVisited u := by
    have hvisits : onTheTrail.visits u = 0 := rfl
    rw [hvisits, World.column]
    cases hfound : onTheTrail.users.find? u with
    | none => rfl
    | some user =>
        obtain rfl : user = hiker := by
          simpa [onTheTrail, Table.insert, Table.empty] using Table.mem_of_find? hfound
        rfl
  questsDone u := by
    have hcompleted : onTheTrail.completedQuests u = 0 := by
      simp [World.completedQuests, onTheTrail, Table.insert, Table.empty, Table.count]
    exact hcompleted ▸ Nat.zero_le _
  streak := by decide +kernel

-- A `complete` that overtakes another one: two quests done for the one completed row.
theorem countersHold_overtaken : ∃ s : System Stmt World Write ApiError,
    CountersHold s.store.db ∧ (s.store.db.questsDoneOf 1, s.store.db.completedQuests 1) = (2, 1) := by
  let completing : Request Unit := (complete AuthHost.plain.toHost 1 1 none).void
  have hrequest : AppRequest .plain completing := .quest (.complete none)
  obtain ⟨s, hs, hobs⟩ := System.exists_reaches_of_interleave (AppRequest .plain) Guard.none
    (System.init onTheTrail) [completing, completing]
    [0, 0, 0, 0, 0, 0, 1, 1, 1, 1, 1, 1, 1, 1, 1, 0, 0, 0]
    (fun s => (s.store.db.questsDoneOf 1, s.store.db.completedQuests 1)) (2, 1)
    (by simpa using hrequest) (by decide +kernel)
  exact ⟨s, countersHold_of_reaches .plain countersHold_onTheTrail hs, hobs⟩

end SideQuest
