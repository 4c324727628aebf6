import SideQuest.Rewards.Awards

-- The totals over the rows that the counters of a user summarise, and what a write does
-- to them.

namespace SideQuest

open ReadCommitted InvitesService

namespace World

-- A user who is not there has done no quests.
def questsDoneOf (w : World) (userId : Id) : ℕ := (w.users.find? userId).elim 0 User.questsDone

def completedQuests (w : World) (userId : Id) : ℕ :=
  w.completions.count fun c => c.userId = userId ∧ c.status = .COMPLETED

def questXp (w : World) (userId : Id) : ℤ :=
  w.completions.sum fun c => if c.userId = userId ∧ c.status = .COMPLETED then c.xpAwarded else 0

def achievementXp (w : World) (userId : Id) : ℤ :=
  w.userAchievements.sum fun a =>
    if a.userId = userId ∧ a.unlockedAt.isSome then w.bonusOf a.achievementId else 0

def redeemedInvites (w : World) (userId : Id) : ℕ :=
  w.invites.count fun i =>
    i.status = .ACCEPTED ∧ (i.inviterId = userId ∨ i.inviteeId = some userId)

-- The XP that the rows account for.
def earned (w : World) (userId : Id) : ℤ :=
  w.questXp userId + w.achievementXp userId + REFERRAL_XP * w.redeemedInvites userId

end World

section Users

variable {db : World} {id userId : Id} {d : UserUpdate}

theorem questsDoneOf_create {row : User} (hfree : db.users.find? row.id = none)
    (hdone : row.questsDone = 0) :
    (db.apply (.userCreate row)).questsDoneOf userId = db.questsDoneOf userId :=
  column_create hfree hdone

theorem questsDoneOf_keep (hd : d.questsDone = .keep) :
    (db.apply (.userUpdate id d)).questsDoneOf userId = db.questsDoneOf userId :=
  column_keep fun user => by simp [UserUpdate.apply, hd, FieldUpdate.apply]

theorem questsDoneOf_increment {n : ℕ} (hd : d.questsDone = .increment n) {row : User}
    (hfound : db.users.find? id = some row) : (db.apply (.userUpdate id d)).questsDoneOf userId =
      db.questsDoneOf userId + if id = userId then n else 0 :=
  column_add hfound (by simp [UserUpdate.apply, hd, FieldUpdate.apply])

end Users

-- What a change of the completion rows does to the two totals over them.
section Completions

variable {w : World} {userId questId : Id} {d : QuestCompletionUpdate}
  {row : QuestCompletion} {u : Id}

-- An update that keeps the share of its row in both.
theorem completions_same (hsame : ∀ row, w.completions.find? (userId, questId) = some row →
    ((d.apply row).status = .COMPLETED ↔ row.status = .COMPLETED) ∧
      (row.status = .COMPLETED → (d.apply row).xpAwarded = row.xpAwarded)) (u : Id) :
    (w.apply (.completionUpdate userId questId d)).completedQuests u = w.completedQuests u ∧
      (w.apply (.completionUpdate userId questId d)).questXp u = w.questXp u := by
  simp only [World.completedQuests, World.questXp, Table.count_eq_sum, World.apply]
  have huser (row : QuestCompletion) : (d.apply row).userId = row.userId := rfl
  constructor
  · apply Table.sum_modify_of_eq
    intro row hrow
    obtain ⟨hstatus, _⟩ := hsame row hrow
    simp only [huser, hstatus]
  · apply Table.sum_modify_of_eq
    intro row hrow
    obtain ⟨hstatus, hxp⟩ := hsame row hrow
    simp only [huser, hstatus]
    split
    · rename_i hmine
      exact hxp hmine.2
    · rfl

-- A row that is not completed before nor after.
theorem completions_open (hfound : w.completions.find? (userId, questId) = some row)
    (hbefore : row.status ≠ .COMPLETED) (hafter : (d.apply row).status ≠ .COMPLETED) :
    (w.apply (.completionUpdate userId questId d)).completedQuests u = w.completedQuests u ∧
      (w.apply (.completionUpdate userId questId d)).questXp u = w.questXp u := by
  apply completions_same
  intro row' hrow'
  obtain rfl : row = row' := Option.some.inj (hfound.symm.trans hrow')
  exact ⟨iff_of_false hafter hbefore, fun hdone => absurd hdone hbefore⟩

-- An update that leaves status and award alone.
theorem completions_keep (w : World) (userId questId : Id) {d : QuestCompletionUpdate}
    (hstatus : d.status = none) (hxp : d.xpAwarded = none) (u : Id) :
    (w.apply (.completionUpdate userId questId d)).completedQuests u = w.completedQuests u ∧
      (w.apply (.completionUpdate userId questId d)).questXp u = w.questXp u := by
  apply completions_same
  intro row _
  have hsame : (d.apply row).status = row.status := by simp [QuestCompletionUpdate.apply, hstatus]
  have haward : (d.apply row).xpAwarded = row.xpAwarded := by
    simp [QuestCompletionUpdate.apply, hxp]
  exact ⟨by rw [hsame], fun _ => haward⟩

-- The first completion of a quest counts once, and for what it awards.
theorem completions_complete {xp : ℤ} (hfound : w.completions.find? (userId, questId) = some row)
    (hopen : row.status ≠ .COMPLETED) (hstatus : d.status = some .COMPLETED)
    (hxp : d.xpAwarded = some xp) :
    (w.apply (.completionUpdate userId questId d)).completedQuests u =
        w.completedQuests u + (if userId = u then 1 else 0) ∧
      (w.apply (.completionUpdate userId questId d)).questXp u =
        w.questXp u + if userId = u then xp else 0 := by
  have hkey : row.key = (userId, questId) := Table.key_of_find? hfound
  have huser : row.userId = userId := (Prod.mk.inj hkey).1
  simp only [World.completedQuests, World.questXp, Table.count_eq_sum, World.apply]
  constructor
  · rw [Table.sum_modify_of_zero hfound _ _ (by simp [hopen])]
    simp [QuestCompletionUpdate.apply, hstatus, huser]
  · rw [Table.sum_modify_of_zero hfound _ _ (by simp [hopen])]
    simp [QuestCompletionUpdate.apply, hstatus, hxp, huser]

theorem completions_create (row : QuestCompletion) (hfree : w.completions.find? row.key = none)
    (hopen : row.status ≠ .COMPLETED) (u : Id) :
    (w.apply (.completionCreate row)).completedQuests u = w.completedQuests u ∧
      (w.apply (.completionCreate row)).questXp u = w.questXp u := by
  simp only [World.completedQuests, World.questXp, World.apply]
  constructor
  · rw [Table.count_insert hfree]
    simp [hopen]
  · rw [Table.sum_insert hfree]
    simp [hopen]

end Completions

-- What a change of the achievement rows does to the total over them.
section Achievements

variable {w : World} {userId achievementId : Id} {d : UserAchievementUpdate} {u : Id}

theorem achievements_unlock {row : UserAchievement}
    (hfound : w.userAchievements.find? (userId, achievementId) = some row)
    (hlocked : row.unlockedAt = none) (hd : d.unlockedAt.isSome) :
    (w.apply (.userAchievementUpdate userId achievementId d)).achievementXp u =
      w.achievementXp u + if userId = u then w.bonusOf achievementId else 0 := by
  have hkey : row.key = (userId, achievementId) := Table.key_of_find? hfound
  obtain ⟨huser, hachievement⟩ := Prod.mk.inj hkey
  obtain ⟨unlockedAt, hunlockedAt⟩ := Option.isSome_iff_exists.mp hd
  simp only [World.achievementXp, World.apply, World.bonusOf]
  rw [Table.sum_modify_of_zero hfound _ _ (by simp [hlocked])]
  simp [UserAchievementUpdate.apply, huser, hachievement, hunlockedAt]

theorem achievements_keep (hd : d.unlockedAt = none) :
    (w.apply (.userAchievementUpdate userId achievementId d)).achievementXp u =
      w.achievementXp u := by
  simp only [World.achievementXp, World.apply, World.bonusOf]
  apply Table.sum_modify_of_eq
  intro row _
  simp [UserAchievementUpdate.apply, hd]

theorem achievements_create (row : UserAchievement)
    (hfree : w.userAchievements.find? row.key = none) (u : Id) :
    (w.apply (.userAchievementCreate row)).achievementXp u = w.achievementXp u +
      if row.userId = u ∧ row.unlockedAt.isSome then w.bonusOf row.achievementId else 0 := by
  simp only [World.achievementXp, World.apply, World.bonusOf]
  exact Table.sum_insert hfree _

end Achievements

-- An invite that is redeemed counts once for either side.
theorem redeemedInvites_accept {w : World} {inviteId inviteeId u : Id} {acceptedAt : Time}
    {row : Invite} (hfound : w.invites.find? inviteId = some row) (hpending : row.status = .PENDING)
    (hne : row.inviterId ≠ inviteeId) :
    (w.apply (claimWrite inviteId inviteeId acceptedAt)).redeemedInvites u =
      w.redeemedInvites u +
        ((if row.inviterId = u then 1 else 0) + if inviteeId = u then 1 else 0) := by
  simp only [World.redeemedInvites, Table.count_eq_sum, World.apply]
  rw [Table.sum_modify_of_zero hfound _ _ (by simp [hpending])]
  by_cases hinviter : row.inviterId = u
  · have hinvitee : inviteeId ≠ u := fun h => hne (hinviter.trans h.symm)
    simp [InviteUpdate.apply, hinviter, hinvitee]
  · simp [InviteUpdate.apply, hinviter]

end SideQuest
