import SideQuest.Achievements.Requests

-- What one round of `evaluateForUser` does when nobody interferes.

namespace SideQuest

open ReadCommitted

namespace AchievementsService

-- What `evaluateWithProgress` answers.
def evaluation (userId : Id) (w : World) (achievement : Achievement) : Evaluation :=
  ((evaluateWithProgress achievement userId).alone w).1.toOption.getD notEarned

def unlockWrite (userId : Id) (w : World) (achievement : Achievement) : Write :=
  match w.userAchievements.find? (userId, achievement.id) with
  | some _ => unlockUpdate userId achievement w.clock
  | none => unlockCreate userId achievement w.clock

theorem users_unlockWrite (userId : Id) (w : World) (achievement : Achievement) :
    (view Stmt w [unlockWrite userId w achievement]).users = w.users := by
  unfold unlockWrite
  split <;> rfl

def unlockWrites (userId : Id) (w : World) (user : User) (achievement : Achievement) : List Write :=
  unlockWrite userId w achievement ::
    if achievement.xpBonus > 0 then
      [bonusWrite userId achievement, levelWrite userId achievement user]
    else []

def unlockEvents (userId : Id) (user : User) (achievement : Achievement) : List AppEvent :=
  .achievementUnlocked userId achievement.id achievement.slug ::
    if achievement.xpBonus > 0 ∧ levelFromXp (user.xp + achievement.xpBonus) > user.level then
      [.levelUp userId user.level (levelFromXp (user.xp + achievement.xpBonus))]
    else []

-- What one round of the loop commits for the user as it finds them.
def roundWrites (userId : Id) (w : World) (user : User) (achievement : Achievement) : List Write :=
  let result := evaluation userId w achievement
  if Unlocked userId achievement.id w then []
  else if result.earned then
    unlockWrites userId w user achievement ++ (unlockEvents userId user achievement).map .emit
  else
    match w.userAchievements.find? (userId, achievement.id) with
    | some row =>
        if result.progress ≠ row.progress then
          [.userAchievementUpdate userId achievement.id { progress := some result.progress }]
        else []
    | none =>
        if result.progress > 0 then
          [.userAchievementCreate
            { userId := userId, achievementId := achievement.id, progress := result.progress }]
        else []

variable {w : World} {userId : Id} {user : User} {achievement : Achievement}

theorem evaluateWithProgress_alone (userId : Id) (w : World) (achievement : Achievement) :
    (evaluateWithProgress achievement userId).alone w =
      (.ok (evaluation userId w achievement), w) := by
  have hqueries : Rules.Queries (evaluateWithProgress achievement userId) :=
    evaluateWithProgress_queries
  obtain ⟨result, hresult⟩ := Prog.alone_queries hqueries w
  rw [evaluation, hresult]
  rfl

theorem unlockTx_alone (huser : w.users.find? userId = some user)
    (hdefined : (w.achievements.find? achievement.id).isSome) :
    (unlockTx userId achievement).alone [] w =
      .ok ((), unlockWrites userId w user achievement) := by
  have hclock : Stmt.exec .now (view Stmt w []) = .ok (w.clock, []) := rfl
  have hupsert : Stmt.exec (.userAchievementUpsertUnlocked userId achievement.id w.clock
      (achievement.targetValue.getD 0)) (view Stmt w []) =
        .ok ((), [unlockWrite userId w achievement]) := by
    obtain ⟨definition, hdefinition⟩ := Option.isSome_iff_exists.mp hdefined
    show Stmt.exec _ w = _
    cases hrow : w.userAchievements.find? (userId, achievement.id) with
    | some row => simp only [Stmt.exec, hrow, unlockWrite]
    | none =>
        simp [Stmt.exec, hrow, huser, hdefinition, unlockWrite]
  have husers := users_unlockWrite userId w achievement
  unfold unlockTx unlockWrites
  refine (Tx.alone_query hclock).trans ((Tx.alone_call hupsert).trans ?_)
  split
  · let paid := UserUpdate.apply { xp := .increment achievement.xpBonus } user
    have hbonus : Stmt.exec (.userUpdate userId { xp := .increment achievement.xpBonus })
        (view Stmt w [unlockWrite userId w achievement]) =
          .ok (paid, [bonusWrite userId achievement]) := by
      simp only [Stmt.exec, husers, huser, paid]
    have hfound : (view Stmt w ([unlockWrite userId w achievement] ++
        [bonusWrite userId achievement])).users.find? userId = some paid := by
      rw [view_append]
      refine (World.find?_userUpdate _ userId _ userId).trans ?_
      rw [if_pos rfl, husers, huser]
      rfl
    have hlevel : Stmt.exec (.userUpdate userId { level := some (levelFromXp paid.xp) })
        (view Stmt w ([unlockWrite userId w achievement] ++ [bonusWrite userId achievement])) =
          .ok (UserUpdate.apply { level := some (levelFromXp paid.xp) } paid,
            [levelWrite userId achievement user]) := by
      simp only [Stmt.exec, hfound]
      rfl
    exact (Tx.alone_call hbonus).trans (Tx.alone_call hlevel)
  · rfl

-- The row of the user after the unlocking transaction.
theorem find?_unlockWrites (achievement : Achievement) (huser : w.users.find? userId = some user) :
    (view Stmt w (unlockWrites userId w user achievement)).users.find? userId =
      some (if achievement.xpBonus > 0 then
        { user with
          xp := user.xp + achievement.xpBonus
          level := levelFromXp (user.xp + achievement.xpBonus) }
      else user) := by
  have husers := users_unlockWrite userId w achievement
  unfold unlockWrites
  split
  · have hpaid := World.find?_userUpdate (view Stmt w [unlockWrite userId w achievement]) userId
      { xp := .increment achievement.xpBonus } userId
    rw [if_pos rfl, husers, huser] at hpaid
    refine (World.find?_userUpdate _ userId _ userId).trans ?_
    rw [if_pos rfl]
    exact congrArg (Option.map _) hpaid
  · exact husers ▸ huser

theorem unlock_alone (huser : w.users.find? userId = some user)
    (hdefined : (w.achievements.find? achievement.id).isSome) :
    (unlock userId achievement).alone w = (.ok (), view Stmt w
      (unlockWrites userId w user achievement ++
        (unlockEvents userId user achievement).map .emit)) := by
  have hbefore : Stmt.exec (.userFindUnique userId) w = .ok (some user, []) := by
    rw [Stmt.exec, huser, ask]
  unfold unlock
  refine (Prog.alone_query hbefore).trans ?_
  refine (Prog.alone_transaction (unlockTx_alone huser hdefined)).trans ?_
  refine (Prog.alone_bind alone_emit).trans ?_
  by_cases hbonus : achievement.xpBonus > 0
  · have hafter : Stmt.exec (.userFindUnique userId) (view Stmt (view Stmt w
        (unlockWrites userId w user achievement)) ([.achievementUnlocked userId achievement.id
          achievement.slug].map .emit)) = .ok (some { user with
            xp := user.xp + achievement.xpBonus
            level := levelFromXp (user.xp + achievement.xpBonus) }, []) := by
      have hfound := find?_unlockWrites achievement huser
      rw [if_pos hbonus] at hfound
      rw [view_emits, Stmt.exec, hfound, ask]
    rw [if_pos hbonus]
    refine (Prog.alone_query hafter).trans ?_
    rw [alone_when_emit, ← view_append, ← view_append, ← List.map_append]
    simp only [unlockEvents, hbonus, true_and]
    rfl
  · rw [if_neg hbonus, view_append]
    simp only [unlockEvents, hbonus, false_and, if_false]
    rfl

-- One round goes through, and commits its writes.
theorem evaluateOne_alone (huser : w.users.find? userId = some user)
    (hdefined : (w.achievements.find? achievement.id).isSome) :
    (evaluateOne userId achievement).alone w =
      (.ok (), view Stmt w (roundWrites userId w user achievement)) := by
  let existing := w.userAchievements.find? (userId, achievement.id)
  have hexisting : Stmt.exec (.userAchievementFindUnique userId achievement.id) w =
      .ok (existing, []) := rfl
  unfold evaluateOne roundWrites
  refine (Prog.alone_query hexisting).trans ?_
  by_cases hunlocked : Unlocked userId achievement.id w
  · have hset : (existing.bind UserAchievement.unlockedAt).isSome = true := hunlocked
    rw [if_pos hset, if_pos hunlocked]
    rfl
  · have hunset : ¬(existing.bind UserAchievement.unlockedAt).isSome = true := hunlocked
    rw [if_neg hunset, if_neg hunlocked]
    refine (Prog.alone_bind (evaluateWithProgress_alone userId w achievement)).trans ?_
    have hunlock := unlock_alone huser hdefined
    cases hrow : w.userAchievements.find? (userId, achievement.id) with
    | some row =>
        have hupdate : Stmt.exec (.userAchievementUpdateProgress userId achievement.id
            (evaluation userId w achievement).progress) w =
              .ok ((), [.userAchievementUpdate userId achievement.id
                { progress := some (evaluation userId w achievement).progress }]) := by
          simp only [Stmt.exec, hrow]
        simp only [existing, hrow]
        split
        · exact hunlock
        · exact Prog.alone_when_call hupdate
    | none =>
        obtain ⟨definition, hdefinition⟩ := Option.isSome_iff_exists.mp hdefined
        have hcreate : Stmt.exec (.userAchievementCreate userId achievement.id
            (evaluation userId w achievement).progress) w =
              .ok ((), [.userAchievementCreate
                { userId := userId
                  achievementId := achievement.id
                  progress := (evaluation userId w achievement).progress }]) := by
          simp [Stmt.exec, hrow, huser, hdefinition]
        simp only [existing, hrow]
        split
        · exact hunlock
        · exact Prog.alone_when_call hcreate

end AchievementsService

end SideQuest
