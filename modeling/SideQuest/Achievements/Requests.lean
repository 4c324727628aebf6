import SideQuest.Model.Achievements
import SideQuest.Model.CallLemmas

-- `evaluateForUser`, by what it may commit.

namespace SideQuest

open ReadCommitted

def World.unlockedAt (w : World) (userId achievementId : Id) : Option Time :=
  (w.userAchievements.find? (userId, achievementId)).bind UserAchievement.unlockedAt

def Unlocked (userId achievementId : Id) (w : World) : Prop :=
  (w.unlockedAt userId achievementId).isSome

instance (userId achievementId : Id) (w : World) : Decidable (Unlocked userId achievementId w) :=
  inferInstanceAs (Decidable (_ = true))

namespace AchievementsService

-- The two forms of the upsert of `unlock`.
abbrev unlockUpdate (userId : Id) (achievement : Achievement) (now : Time) : Write :=
  .userAchievementUpdate userId achievement.id
    { unlockedAt := some now, progress := some (achievement.targetValue.getD 0) }

abbrev unlockCreate (userId : Id) (achievement : Achievement) (now : Time) : Write :=
  .userAchievementCreate
    { userId := userId
      achievementId := achievement.id
      unlockedAt := some now
      progress := achievement.targetValue.getD 0 }

abbrev bonusWrite (userId : Id) (achievement : Achievement) : Write :=
  .userUpdate userId { xp := .increment achievement.xpBonus }

-- The level of the row as the bonus has left it.
abbrev levelWrite (userId : Id) (achievement : Achievement) (user : User) : Write :=
  .userUpdate userId { level := some (levelFromXp (user.xp + achievement.xpBonus)) }

section

variable (R : Rules Stmt) (me : ℕ) (userId : Id) (achievement : Achievement)
  (s s' : Store World Write)

-- An unlocking transaction that started at `s`, has run its upsert and is at `s'`.
structure Unlocking where
  now : Time
  write : Write
  atUpsert : Store World Write
  to_upsert : R.rely me [] s atUpsert
  upsert_guard : R.guard [⟨.now, now⟩] (.userAchievementUpsertUnlocked userId achievement.id now
    (achievement.targetValue.getD 0)) atUpsert.db = true
  upsert : (∃ row, atUpsert.db.userAchievements.find? (userId, achievement.id) = some row ∧
      write = unlockUpdate userId achievement now) ∨
    (atUpsert.db.userAchievements.find? (userId, achievement.id) = none ∧
      (atUpsert.db.users.find? userId).isSome ∧ write = unlockCreate userId achievement now)
  to_next : R.rely me [.userAchievement userId achievement.id] atUpsert s'

-- The bonus of the unlocking transaction, from its first update of the user at `s` on.
structure Paying where
  user : User
  atLevel : Store World Write
  user_found : s.db.users.find? userId = some user
  to_level : R.rely me [.userAchievement userId achievement.id, .user userId] s atLevel
  to_commit : R.rely me [.userAchievement userId achievement.id, .user userId, .user userId]
    atLevel s'

-- The achievement as some store with the invariant has it.
def Defined : Prop := ∃ s, R.inv s ∧ s.db.achievements.find? achievement.id = some achievement

end

variable {R : Rules Stmt} {me : ℕ} {userId : Id} {achievement : Achievement}
  {s s' : Store World Write}

-- The upsert sets `unlockedAt` of its row, as long as the row is what it was.
theorem Unlocking.unlockedAt_view (t : Unlocking R me userId achievement s s') {db : World}
    (hsame : db.userAchievements.find? (userId, achievement.id) =
      t.atUpsert.db.userAchievements.find? (userId, achievement.id)) (u a : Id) :
    (db.apply t.write).unlockedAt u a =
      if (u, a) = (userId, achievement.id) then some t.now else db.unlockedAt u a := by
  rcases t.upsert with ⟨row, hrow, hw⟩ | ⟨hnone, _, hw⟩
  · rw [hw]
    simp only [World.unlockedAt, World.apply, Table.find?_modify]
    by_cases hkey : (u, a) = (userId, achievement.id)
    · rw [if_pos hkey, if_pos hkey, hkey, hsame, hrow]
      rfl
    · rw [if_neg hkey, if_neg hkey]
  · rw [hw]
    have hfree := hsame.trans hnone
    simp only [World.unlockedAt, World.apply]
    rw [Table.find?_insert hfree]
    by_cases hkey : (u, a) = (userId, achievement.id)
    · rw [if_pos hkey, hkey]
      exact congrArg (Option.bind · UserAchievement.unlockedAt) (if_pos rfl)
    · rw [if_neg hkey]
      exact congrArg (Option.bind · UserAchievement.unlockedAt) (if_neg (Ne.symm hkey))

theorem Unlocking.users_apply (t : Unlocking R me userId achievement s s') (db : World) :
    (db.apply t.write).users = db.users := by
  rcases t.upsert with ⟨_, _, hw⟩ | ⟨_, _, hw⟩ <;> rw [hw] <;> rfl

theorem Unlocking.same (t : Unlocking R me userId achievement s s') :
    s'.db.userAchievements.find? (userId, achievement.id) =
      t.atUpsert.db.userAchievements.find? (userId, achievement.id) :=
  R.rely_same t.to_next (.userAchievement userId achievement.id) (by simp)

theorem Paying.same (p : Paying R me userId achievement s s') :
    s'.db.userAchievements.find? (userId, achievement.id) =
      s.db.userAchievements.find? (userId, achievement.id) := by
  have hlevel := R.rely_same p.to_level (.userAchievement userId achievement.id) (by simp)
  have hcommit := R.rely_same p.to_commit (.userAchievement userId achievement.id) (by simp)
  exact hcommit.trans hlevel

theorem Paying.same_user (p : Paying R me userId achievement s s') :
    s'.db.users.find? userId = some p.user := by
  have hlevel := R.rely_same p.to_level (.user userId) (by simp)
  have hcommit := R.rely_same p.to_commit (.user userId) (by simp)
  exact hcommit.trans (hlevel.trans p.user_found)

theorem wpTx_unlockTx {Q : List (Seen Stmt) → List Write → Unit → Store World Write → Prop}
    (hfree : ∀ seen s' (t : Unlocking R me userId achievement s s'), ¬0 < achievement.xpBonus →
      Q seen [t.write] () s')
    (hpaid : ∀ seen s₁ s' (t : Unlocking R me userId achievement s s₁)
      (p : Paying R me userId achievement s₁ s'), 0 < achievement.xpBonus →
        Q seen [t.write, bonusWrite userId achievement, levelWrite userId achievement p.user] () s') :
    R.wpTx me Q (unlockTx userId achievement) [] [] s := by
  unfold unlockTx
  refine Rules.wpTx_query (fun _ => rfl) fun atNow to_now => ?_
  refine Rules.wpTx_call fun atUpsert to_upsert upsert_guard _ ws he => ?_
  obtain ⟨write, rfl, upsert⟩ : ∃ write, ws = [write] ∧
      ((∃ row, atUpsert.db.userAchievements.find? (userId, achievement.id) = some row ∧
        write = unlockUpdate userId achievement atNow.db.clock) ∨
      (atUpsert.db.userAchievements.find? (userId, achievement.id) = none ∧
        (atUpsert.db.users.find? userId).isSome ∧
        write = unlockCreate userId achievement atNow.db.clock)) := by
    rcases exec_userAchievementUpsertUnlocked he with ⟨row, hrow, rfl⟩ | ⟨hnone, huser, rfl⟩
    · exact ⟨_, rfl, Or.inl ⟨row, hrow, rfl⟩⟩
    · exact ⟨_, rfl, Or.inr ⟨hnone, huser, rfl⟩⟩
  let unlocking (s' : Store World Write)
      (to_next : R.rely me [.userAchievement userId achievement.id] atUpsert s') :
      Unlocking R me userId achievement s s' := {
    now := atNow.db.clock, write, atUpsert
    to_upsert := R.rely_trans to_now to_upsert
    upsert_guard, upsert, to_next }
  have hlocks : write.locks = [.userAchievement userId achievement.id] := by
    rcases upsert with ⟨_, _, rfl⟩ | ⟨_, _, rfl⟩ <;> rfl
  have husers (db : World) : (view Stmt db [write]).users = db.users := by
    rcases upsert with ⟨_, _, rfl⟩ | ⟨_, _, rfl⟩ <;> rfl
  split
  · rename_i hpos
    refine Rules.wpTx_call fun s₁ to_next _ _ _ he => ?_
    obtain ⟨user, user_found, rfl, rfl⟩ := exec_userUpdate he
    refine Rules.wpTx_call fun atLevel to_level _ _ _ he => ?_
    obtain ⟨_, _, rfl, rfl⟩ := exec_userUpdate he
    intro s' to_commit
    simp only [List.nil_append, List.cons_append, locksOf_cons, locks_eq,
      hlocks] at to_next to_level to_commit
    rw [List.nil_append, husers] at user_found
    exact hpaid _ s₁ s' (unlocking s₁ to_next)
      ⟨user, atLevel, user_found, to_level, to_commit⟩ hpos
  · rename_i hpos
    intro s' to_next
    simp only [List.nil_append, locksOf_cons, locks_eq, hlocks] at to_next
    exact hfree _ s' (unlocking s' to_next) hpos

-- Everything that `evaluateForUser` may commit is fine. An unlocking transaction runs
-- after a store at which the achievement was not unlocked, and its event comes later.
structure AchievementCommits (R : Rules Stmt) (me : ℕ) (userId : Id) : Prop where
  levelUp : ∀ s previousLevel newLevel, R.inv s →
    R.Commits me s [.emit (.levelUp userId previousLevel newLevel)]
  free : ∀ achievement s₀ s s' (t : Unlocking R me userId achievement s s'),
    Defined R achievement → R.rely me [] s₀ s → ¬Unlocked userId achievement.id s₀.db →
      ¬0 < achievement.xpBonus → R.Commits me s' [t.write]
  paid : ∀ achievement s₀ s s₁ s' (t : Unlocking R me userId achievement s s₁)
    (p : Paying R me userId achievement s₁ s'),
      Defined R achievement → R.rely me [] s₀ s → ¬Unlocked userId achievement.id s₀.db →
        0 < achievement.xpBonus → R.Commits me s'
          [t.write, bonusWrite userId achievement, levelWrite userId achievement p.user]
  unlocked : ∀ achievement s s₁ s₂ s' (t : Unlocking R me userId achievement s s₁) ws,
    R.inv s₂ → (∀ wr ∈ ws, ∃ d, wr = .userUpdate userId d) →
      R.rely me [] (s₂.commit Stmt me (t.write :: ws)) s' →
        R.Commits me s' [.emit (.achievementUnlocked userId achievement.id achievement.slug)]
  progress : ∀ achievementId s row progress, R.inv s →
    s.db.userAchievements.find? (userId, achievementId) = some row →
      R.Commits me s [.userAchievementUpdate userId achievementId { progress := some progress }]
  create : ∀ achievementId s progress, R.inv s →
    s.db.userAchievements.find? (userId, achievementId) = none → (s.db.users.find? userId).isSome →
      R.Commits me s [.userAchievementCreate
        { userId := userId, achievementId := achievementId, progress := progress }]

-- Evaluating the criteria only reads.
theorem evaluateWithProgress_queries :
    Rules.Queries (evaluateWithProgress achievement userId) := by
  have hask {β : Type} {answer : World → β} : ∀ w, ∃ b, ask (answer w) = .ok (b, []) :=
    fun w => ⟨answer w, rfl⟩
  unfold evaluateWithProgress
  cases achievement.type with
  | QUEST_COUNT =>
      dsimp only
      split
      · trivial
      · exact ⟨hask, fun _ => trivial⟩
  | XP_THRESHOLD =>
      refine ⟨hask, fun user => ?_⟩
      cases user <;> trivial
  | CATEGORY_EXPLORER =>
      dsimp only
      split
      · split
        · trivial
        · exact ⟨hask, fun _ => trivial⟩
      · trivial
  | LOCATION_VISITS =>
      dsimp only
      split
      · trivial
      · exact ⟨hask, fun _ => trivial⟩
  | SOCIAL =>
      dsimp only
      split
      · trivial
      · exact ⟨hask, fun _ => trivial⟩
  | STREAK =>
      dsimp only
      split
      · trivial
      · refine ⟨hask, fun user => ?_⟩
        cases user <;> trivial
  | CUSTOM => trivial

theorem wp_unlock {P : Unit → Store World Write → Prop} (h : AchievementCommits R me userId)
    {s₀ : Store World Write} (hdefined : Defined R achievement) (hr₀ : R.rely me [] s₀ s)
    (hlocked : ¬Unlocked userId achievement.id s₀.db) (hP : ∀ s, P () s) :
    R.wp me P (unlock userId achievement) s := by
  unfold unlock
  refine Rules.wp_query (fun _ => rfl) fun s₁ h₁ => ?_
  have hr₁ := R.rely_trans hr₀ h₁
  -- What follows the transaction is the same with and without a bonus.
  have htail : ∀ s₂ s₃ (t : Unlocking R me userId achievement s₁ s₂) ws, R.inv s₃ →
      (∀ wr ∈ ws, ∃ d, wr = .userUpdate userId d) → ∀ previousLevel : ℕ,
        R.wp me P (do
          emit (.achievementUnlocked userId achievement.id achievement.slug)
          if achievement.xpBonus > 0 then
            let after ← prisma (.userFindUnique userId)
            let newLevel := (after.map User.level).getD previousLevel
            Prog.when (newLevel > previousLevel) (emit (.levelUp userId previousLevel newLevel))
          else
            return ()) (s₃.commit Stmt me (t.write :: ws)) := by
    intro s₂ s₃ t ws hs₃ hws previousLevel
    refine Rules.wp_call fun s₄ h₄ _ _ _ he => ?_
    cases exec_emit he
    refine ⟨h.unlocked achievement s₁ s₂ s₃ s₄ t ws hs₃ hws h₄, ?_⟩
    split
    · refine Rules.wp_query (fun _ => rfl) fun s₅ h₅ => ?_
      dsimp only [Prog.when]
      split
      · refine fun s₆ h₆ _ _ _ he => ?_
        cases exec_emit he
        exact ⟨h.levelUp s₆ _ _ (R.rely_inv h₆), fun _ _ => hP _⟩
      · exact fun _ _ => hP _
    · exact fun _ _ => hP _
  refine Rules.wp_transaction (wpTx_unlockTx ?_ ?_)
  · intro _ s₂ t hpos
    refine ⟨h.free achievement s₀ s₁ s₂ t hdefined hr₁ hlocked hpos, ?_⟩
    exact htail s₂ s₂ t [] (R.rely_inv t.to_next) (fun _ hwr => by cases hwr) _
  · intro _ s₂ s₃ t p hpos
    refine ⟨h.paid achievement s₀ s₁ s₂ s₃ t p hdefined hr₁ hlocked hpos, ?_⟩
    refine htail s₂ s₃ t _ (R.rely_inv p.to_commit) ?_ _
    simp

theorem wp_evaluateOne {P : Unit → Store World Write → Prop} (h : AchievementCommits R me userId)
    (hdefined : Defined R achievement) (hP : ∀ s, P () s) :
    R.wp me P (evaluateOne userId achievement) s := by
  unfold evaluateOne
  refine Rules.wp_query (fun _ => rfl) fun s₁ h₁ => ?_
  split
  · exact fun _ _ => hP _
  · rename_i hlocked
    refine Rules.wp_readOnly evaluateWithProgress_queries.readOnly fun result s₂ h₂ => ?_
    cases hexisting : s₁.db.userAchievements.find? (userId, achievement.id) with
    | some existing =>
        dsimp only
        split
        · exact wp_unlock h hdefined h₂ hlocked hP
        · unfold Prog.when
          split
          · refine fun s₃ h₃ _ _ _ he => ?_
            obtain ⟨⟨row, hrow⟩, rfl⟩ := exec_userAchievementUpdateProgress he
            exact ⟨h.progress _ s₃ row _ (R.rely_inv h₃) hrow, fun _ _ => hP _⟩
          · exact fun _ _ => hP _
    | none =>
        dsimp only
        split
        · exact wp_unlock h hdefined h₂ hlocked hP
        · unfold Prog.when
          split
          · refine fun s₃ h₃ _ _ _ he => ?_
            obtain ⟨hnone, huser, rfl⟩ := exec_userAchievementCreate he
            exact ⟨h.create _ s₃ _ (R.rely_inv h₃) hnone huser, fun _ _ => hP _⟩
          · exact fun _ _ => hP _

theorem wp_evaluateEach (h : AchievementCommits R me userId) {definitions : List Achievement}
    (hdefined : ∀ a ∈ definitions, Defined R a) :
    R.wp me (fun _ _ => True) (evaluateEach userId definitions) s := by
  induction definitions generalizing s with
  | nil => exact fun _ _ => trivial
  | cons achievement rest ih =>
      apply Rules.wp_bind
      refine wp_evaluateOne h (hdefined achievement List.mem_cons_self) fun s' => ?_
      exact ih fun a ha => hdefined a (List.mem_cons_of_mem _ ha)

theorem wp_evaluateForUser (h : AchievementCommits R me userId) :
    R.wp me (fun _ _ => True) (evaluateForUser userId) s := by
  unfold evaluateForUser
  refine Rules.wp_query (fun _ => rfl) fun s₁ h₁ => ?_
  exact wp_evaluateEach h fun a ha => ⟨s₁, R.rely_inv h₁, Table.find?_of_mem ha⟩

end AchievementsService

end SideQuest
