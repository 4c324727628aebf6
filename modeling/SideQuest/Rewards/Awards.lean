import SideQuest.Quests.Requests
import SideQuest.Achievements.Requests
import SideQuest.Invites.Requests

-- The XP that committed transactions award: `xpReward` for a completion, `xpBonus` for
-- an unlocked achievement, 50 to either side of a redeemed invite.

namespace SideQuest

open ReadCommitted

namespace World

-- What unlocking an achievement adds.
def bonusOf (w : World) (achievementId : Id) : ℤ :=
  (w.achievements.find? achievementId).elim 0 fun a => max 0 a.xpBonus

def isInviter (w : World) (inviteId userId : Id) : Prop :=
  (w.invites.find? inviteId).map Invite.inviterId = some userId

instance (w : World) (inviteId userId : Id) : Decidable (w.isInviter inviteId userId) :=
  inferInstanceAs (Decidable (_ = _))

-- A column of a user, zero for who is not there.
def column {M : Type} [Zero M] (w : World) (field : User → M) (userId : Id) : M :=
  (w.users.find? userId).elim 0 field

-- A user who is not there has no XP.
def xpOf (w : World) (userId : Id) : ℤ := (w.users.find? userId).elim 0 User.xp

end World

section Columns

variable {M : Type} {field : User → M} {db : World} {id userId : Id} {d : UserUpdate} {row : User}

theorem column_create [Zero M] (hfree : db.users.find? row.id = none) (hzero : field row = 0) :
    (db.apply (.userCreate row)).column field userId = db.column field userId := by
  simp only [World.column, World.apply, Table.find?_insert hfree]
  by_cases hid : row.id = userId
  · subst hid
    simp [hfree, hzero]
  · simp [hid]

theorem column_keep [Zero M] (hkeep : ∀ user, field (d.apply user) = field user) :
    (db.apply (.userUpdate id d)).column field userId = db.column field userId := by
  simp only [World.column, World.apply, Table.find?_modify]
  split
  · cases db.users.find? userId with
    | none => rfl
    | some user => exact hkeep user
  · rfl

theorem column_add [AddMonoid M] {n : M} (hfound : db.users.find? id = some row)
    (hadd : field (d.apply row) = field row + n) :
    (db.apply (.userUpdate id d)).column field userId =
      db.column field userId + if id = userId then n else 0 := by
  simp only [World.column, World.apply, Table.find?_modify]
  by_cases hid : id = userId
  · subst hid
    simp [hfound, hadd]
  · simp [hid, Ne.symm hid]

end Columns

-- What a committed write awards to a user. The definitions and the inviters are looked
-- up in `w`.
def Write.award (w : World) (userId : Id) : Write → ℤ
  | .completionUpdate u _ d =>
      if u = userId ∧ d.status = some .COMPLETED then d.xpAwarded.getD 0 else 0
  | .userAchievementCreate row =>
      if row.userId = userId ∧ row.unlockedAt.isSome then w.bonusOf row.achievementId else 0
  | .userAchievementUpdate u a d =>
      if u = userId ∧ d.unlockedAt.isSome then w.bonusOf a else 0
  | .inviteUpdate id d =>
      if d.status = .ACCEPTED ∧ (w.isInviter id userId ∨ d.inviteeId = some userId) then
        InvitesService.REFERRAL_XP
      else 0
  | _ => 0

def awarded (w : World) (userId : Id) (ws : List Write) : ℤ := (ws.map (Write.award w userId)).sum

-- The awards of all the commits of a log.
def awardedIn (w : World) (userId : Id) (wal : List (ℕ × List Write)) : ℤ :=
  (wal.map fun entry => awarded w userId entry.2).sum

section

variable {w db : World} {id userId : Id} {d : UserUpdate}

@[simp] theorem awarded_nil : awarded w userId [] = 0 := rfl

@[simp] theorem awarded_cons (wr : Write) (ws : List Write) :
    awarded w userId (wr :: ws) = wr.award w userId + awarded w userId ws := List.sum_cons

theorem awarded_append (ws ws' : List Write) :
    awarded w userId (ws ++ ws') = awarded w userId ws + awarded w userId ws' := by
  simp [awarded]

theorem awardedIn_commit (s : Store World Write) (me : ℕ) (ws : List Write) :
    awardedIn w userId (s.commit Stmt me ws).wal =
      awardedIn w userId s.wal + awarded w userId ws := by
  cases ws with
  | nil => simp
  | cons wr ws => simp [awardedIn]

theorem xpOf_keep (hd : d.xp = .keep) :
    (db.apply (.userUpdate id d)).xpOf userId = db.xpOf userId :=
  column_keep fun user => by simp [UserUpdate.apply, hd, FieldUpdate.apply]

theorem xpOf_create {row : User} (hfree : db.users.find? row.id = none) (hxp : row.xp = 0) :
    (db.apply (.userCreate row)).xpOf userId = db.xpOf userId := column_create hfree hxp

theorem xpOf_increment {n : ℤ} (hd : d.xp = .increment n) {row : User}
    (hfound : db.users.find? id = some row) : (db.apply (.userUpdate id d)).xpOf userId =
      db.xpOf userId + if id = userId then n else 0 :=
  column_add hfound (by simp [UserUpdate.apply, hd, FieldUpdate.apply])

theorem xpOf_set {n : ℤ} (hd : d.xp = .set n) {row : User}
    (hfound : db.users.find? id = some row) : (db.apply (.userUpdate id d)).xpOf userId =
      db.xpOf userId + if id = userId then n - row.xp else 0 :=
  column_add hfound (by simp [UserUpdate.apply, hd, FieldUpdate.apply])

end

namespace QuestsService

variable {R : Rules Stmt} {me : ℕ} {host : Host} {u q : Id} {quest : QuestWithLocations}
  {proof : Option CompletionProof} {seen : List (Seen Stmt)} {ws : List Write}
  {s s' : Store World Write} {w db : World} {userId : Id}

theorem Finalizing.awarded (t : Finalizing R me host u q quest proof seen ws s s') :
    awarded w userId t.writes = if u = userId then quest.quest.xpReward else 0 := by
  simp [writes, Write.award, completedData]

theorem Finalizing.xpOf_paid (t : Finalizing R me host u q quest proof seen ws s s') {row : User}
    (hfound : db.users.find? u = some row) (userId : Id) : (view Stmt db t.writes).xpOf userId =
      db.xpOf userId + if u = userId then quest.quest.xpReward else 0 := by
  have hreward : (view Stmt db t.writes).xpOf userId =
      (db.apply (claimWrite u q quest proof t.completion t.now)).xpOf userId +
        if u = userId then quest.quest.xpReward else 0 := xpOf_increment rfl hfound
  exact hreward

-- A finalization pays what it awards.
theorem Finalizing.xpOf_view (t : Finalizing R me host u q quest proof seen ws s s') {row : User}
    (hfound : db.users.find? u = some row) :
    (view Stmt db t.writes).xpOf userId =
      db.xpOf userId + SideQuest.awarded w userId t.writes := by
  rw [t.awarded]
  exact t.xpOf_paid hfound userId

theorem CheckingIn.xpOf_view {locationId : Id} {body : QuestCheckInBody}
    (t : CheckingIn R me u q locationId body s s') :
    (view Stmt db t.writes).xpOf userId = db.xpOf userId := by
  exact xpOf_keep rfl

theorem CheckingIn.awarded {locationId : Id} {body : QuestCheckInBody}
    (t : CheckingIn R me u q locationId body s s') : awarded w userId t.writes = 0 := by
  simp [writes, Write.award]

-- A check-in that completes the quest pays for the completion only.
theorem CheckingIn.xpOf_view_last {locationId : Id} {body : QuestCheckInBody}
    {s₁ : Store World Write} (t : CheckingIn R me u q locationId body s s₁)
    (fin : Finalizing R me host u q quest proof seen t.writes s₁ s') :
    (view Stmt s'.db (t.writes ++ fin.writes)).xpOf userId =
      s'.db.xpOf userId + SideQuest.awarded w userId (t.writes ++ fin.writes) := by
  obtain ⟨row, hrow⟩ := t.still_user fun _ => fin.same
  have hview := t.view_user s'.db
  rw [hrow, Option.map_some] at hview
  rw [view_append, fin.xpOf_view hview, t.xpOf_view, awarded_append, t.awarded, Int.zero_add]

end QuestsService

namespace AchievementsService

variable {R : Rules Stmt} {me : ℕ} {u : Id} {achievement : Achievement}
  {s s₁ s' : Store World Write} {w : World} {userId : Id}

theorem bonusOf_eq (h : w.achievements.find? achievement.id = some achievement) :
    w.bonusOf achievement.id = max 0 achievement.xpBonus := by
  rw [World.bonusOf, h]
  rfl

theorem Unlocking.awarded (t : Unlocking R me u achievement s s') :
    awarded w userId [t.write] = if u = userId then w.bonusOf achievement.id else 0 := by
  rcases t.upsert with ⟨_, _, hw⟩ | ⟨_, _, hw⟩ <;> rw [hw] <;> simp [Write.award]

-- An unlock without a bonus pays nothing, one with a bonus pays it.
theorem Unlocking.xpOf_free (t : Unlocking R me u achievement s s')
    (hfree : ¬0 < achievement.xpBonus) (db : World) : (view Stmt db [t.write]).xpOf userId =
      db.xpOf userId + if u = userId then max 0 achievement.xpBonus else 0 := by
  have hzero : max 0 achievement.xpBonus = 0 := max_eq_left (Int.not_lt.mp hfree)
  have husers : (view Stmt db [t.write]).users = db.users := t.users_apply db
  rw [hzero, ite_self, Int.add_zero, World.xpOf, husers]
  rfl

theorem Unlocking.xpOf_paid (t : Unlocking R me u achievement s s₁)
    (p : Paying R me u achievement s₁ s') (hpos : 0 < achievement.xpBonus) :
    (view Stmt s'.db [t.write, bonusWrite u achievement, levelWrite u achievement p.user]).xpOf
      userId = s'.db.xpOf userId + if u = userId then max 0 achievement.xpBonus else 0 := by
  have hfound : (s'.db.apply t.write).users.find? u = some p.user := by
    rw [t.users_apply]
    exact p.same_user
  have hkeep : (s'.db.apply t.write).xpOf userId = s'.db.xpOf userId := by
    rw [World.xpOf, t.users_apply]
    rfl
  have hincrement : ((s'.db.apply t.write).apply (bonusWrite u achievement)).xpOf userId =
      (s'.db.apply t.write).xpOf userId + if u = userId then achievement.xpBonus else 0 :=
    xpOf_increment rfl hfound
  rw [max_eq_right hpos.le, ← hkeep, ← hincrement]
  exact xpOf_keep rfl

end AchievementsService

section Invites

open InvitesService AuthService

variable {R : Rules Stmt} {me : ℕ} {host : Host} {dto : RegisterDto} {ids : FreshIds}
  {token : String} {s s' : Store World Write} {w : World} {userId : Id}

-- A redemption awards the bonus to either side.
theorem Redeeming.awarded (t : Redeeming R me host dto ids token s s')
    (hinviter : (w.invites.find? t.claim.invite.id).map Invite.inviterId =
      some t.claim.invite.inviterId) :
    SideQuest.awarded w userId t.writes =
      (if t.claim.invite.inviterId = userId then REFERRAL_XP else 0) +
        if ids.user = userId then REFERRAL_XP else 0 := by
  have hbefriend : SideQuest.awarded w userId t.befriend.writes = 0 := by
    rcases t.befriend.made with ⟨_, _, hw⟩ | ⟨_, _, _, hw⟩ <;> rw [hw] <;> simp [Write.award]
  have haward : SideQuest.awarded w userId t.award.writes = 0 := by
    simp [Awarding.writes, Write.award]
  have hclaim : SideQuest.awarded w userId
      [.userCreate (newUser host dto ids.user), t.claim.write] =
        if t.claim.invite.inviterId = userId ∨ ids.user = userId then REFERRAL_XP else 0 := by
    simp [Claiming.write, Write.award, World.isInviter, hinviter]
  rw [Redeeming.writes, awarded_append, awarded_append, hbefriend, haward, hclaim, Int.add_zero,
    Int.add_zero]
  by_cases hleft : t.claim.invite.inviterId = userId
  · have hright : ids.user ≠ userId := fun h => t.claim.distinct (hleft.trans h.symm)
    simp [hleft, hright]
  · simp [hleft]

-- It pays what it awards when the inviter's XP is what it has read.
theorem Redeeming.xpOf_view (t : Redeeming R me host dto ids token s s')
    (hxp : (s'.db.users.find? t.claim.invite.inviterId).map User.xp = some t.award.inviter.xp) :
    (view Stmt s'.db t.writes).xpOf userId = s'.db.xpOf userId +
      ((if t.claim.invite.inviterId = userId then REFERRAL_XP else 0) +
        if ids.user = userId then REFERRAL_XP else 0) := by
  obtain ⟨row, hrow, hread⟩ := Option.map_eq_some_iff.mp hxp
  let before := view Stmt s'.db ([.userCreate (newUser host dto ids.user), t.claim.write] ++
    t.befriend.writes)
  have hbefore : before.xpOf userId = s'.db.xpOf userId := by
    rw [World.xpOf, t.users_before]
    exact xpOf_create t.user_free rfl
  have hinviterRow : before.users.find? t.claim.invite.inviterId = some row :=
    (t.find?_inviter s'.db).trans hrow
  have hinviter : (before.apply
      (referralWrite t.award.inviter t.claim.invite.inviterId)).xpOf userId =
      before.xpOf userId + if t.claim.invite.inviterId = userId then
        t.award.inviter.xp + REFERRAL_XP - row.xp else 0 := xpOf_set rfl hinviterRow
  have hinviteeRow : (before.apply (referralWrite t.award.inviter
      t.claim.invite.inviterId)).users.find? ids.user = some (newUser host dto ids.user) := by
    rw [World.find?_userUpdate, if_neg (Ne.symm t.claim.distinct), t.users_before,
      Table.find?_insert t.user_free]
    exact if_pos rfl
  have hinvitee : ((before.apply (referralWrite t.award.inviter t.claim.invite.inviterId)).apply
      (referralWrite t.award.invitee ids.user)).xpOf userId =
        (before.apply (referralWrite t.award.inviter t.claim.invite.inviterId)).xpOf userId +
          if ids.user = userId then
            t.award.invitee.xp + REFERRAL_XP - (newUser host dto ids.user).xp else 0 :=
    xpOf_set rfl hinviteeRow
  have hgain : t.award.inviter.xp + REFERRAL_XP - row.xp = REFERRAL_XP := by omega
  have hgain' : t.award.invitee.xp + REFERRAL_XP - (newUser host dto ids.user).xp =
      REFERRAL_XP := by
    rw [t.invitee_new]
    omega
  rw [hgain] at hinviter
  rw [hgain'] at hinvitee
  rw [Redeeming.writes, view_append, ← hbefore, ← Int.add_assoc, ← hinviter]
  exact hinvitee

end Invites

end SideQuest
