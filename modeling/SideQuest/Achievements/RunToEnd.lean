import SideQuest.Achievements.Shown
import SideQuest.Lib.Completes

-- Evaluations that run to their end, as long as none of them creates a row that another
-- one has created since it looked.

namespace SideQuest

open ReadCommitted

-- The definitions stay, and so do all users and all rows of achievements.
structure Grown (w w' : World) : Prop where
  achievements : w'.achievements = w.achievements
  users : ∀ id, (w.users.find? id).isSome → (w'.users.find? id).isSome
  rows : ∀ key, (w.userAchievements.find? key).isSome → (w'.userAchievements.find? key).isSome

section Tables

variable {α κ : Type} {key : α → κ} [DecidableEq κ] {t : Table key} {k : κ}

theorem isSome_insert (a : α) (h : (t.find? k).isSome) : ((t.insert a).find? k).isSome := by
  obtain ⟨b, hb⟩ := Option.isSome_iff_exists.mp h
  exact Option.isSome_of_eq_some (Table.find?_insert_of_some hb a)

theorem isSome_modify {k' : κ} {f : α → α} (hf : ∀ a, key (f a) = key a) (h : (t.find? k).isSome) :
    ((t.modify k' f hf).find? k).isSome := by
  rw [Table.find?_modify]
  split
  · rwa [Option.isSome_map]
  · exact h

end Tables

theorem growth : Growth Stmt Grown where
  refl _ := ⟨rfl, fun _ h => h, fun _ h => h⟩
  trans h h' := ⟨h'.achievements.trans h.achievements, fun id hid => h'.users id (h.users id hid),
    fun key hkey => h'.rows key (h.rows key hkey)⟩
  apply w wr := by
    cases wr with
    | userCreate row => exact ⟨rfl, fun _ h => isSome_insert row h, fun _ h => h⟩
    | userUpdate id d => exact ⟨rfl, fun _ h => isSome_modify d.id_apply h, fun _ h => h⟩
    | userAchievementCreate row => exact ⟨rfl, fun _ h => h, fun _ h => isSome_insert row h⟩
    | userAchievementUpdate u a d =>
        exact ⟨rfl, fun _ h => h, fun _ h => isSome_modify d.key_apply h⟩
    | _ => exact ⟨rfl, fun _ h => h, fun _ h => h⟩
  happen _ _ := ⟨rfl, fun _ h => h, fun _ h => h⟩

-- The row of the user is locked last.
def lockRank : Lock → ℕ
  | .user _ => 1
  | _ => 0

namespace AchievementsService

-- The create of a round finds no row.
def createsAbsent : Guard Stmt World := fun _ _ st w =>
  match st with
  | .userAchievementCreate u a _ => (w.userAchievements.find? (u, a)).isNone
  | _ => true

variable {userId : Id} {achievement : Achievement} {w : World}

-- The references of a row of the user for the achievement.
structure Referable (userId : Id) (achievement : Achievement) (w : World) : Prop where
  user : (w.users.find? userId).isSome
  achievement : (w.achievements.find? achievement.id).isSome

theorem Referable.grown {w' : World} (h : Referable userId achievement w) (hw : Grown w w') :
    Referable userId achievement w' where
  user := hw.users userId h.user
  achievement := hw.achievements ▸ h.achievement

theorem isOk_userUpdate (h : (w.users.find? userId).isSome) (d : UserUpdate) :
    (Stmt.exec (.userUpdate userId d) w).isOk := by
  obtain ⟨user, huser⟩ := Option.isSome_iff_exists.mp h
  simp only [Stmt.exec, huser]
  rfl

theorem isOk_upsertUnlocked (h : Referable userId achievement w) (now : Time) (progress : ℤ) :
    (Stmt.exec (.userAchievementUpsertUnlocked userId achievement.id now progress) w).isOk := by
  obtain ⟨user, huser⟩ := Option.isSome_iff_exists.mp h.user
  obtain ⟨definition, hdefinition⟩ := Option.isSome_iff_exists.mp h.achievement
  cases hrow : w.userAchievements.find? (userId, achievement.id) with
  | some row =>
      simp only [Stmt.exec, hrow]
      rfl
  | none =>
      simp [Stmt.exec, hrow, huser, hdefinition]
      rfl

theorem isOk_create (h : Referable userId achievement w)
    (hnone : w.userAchievements.find? (userId, achievement.id) = none) (progress : ℤ) :
    (Stmt.exec (.userAchievementCreate userId achievement.id progress) w).isOk := by
  obtain ⟨user, huser⟩ := Option.isSome_iff_exists.mp h.user
  obtain ⟨definition, hdefinition⟩ := Option.isSome_iff_exists.mp h.achievement
  simp [Stmt.exec, hnone, huser, hdefinition]
  rfl

theorem isOk_updateProgress
    (h : (w.userAchievements.find? (userId, achievement.id)).isSome) (progress : ℤ) :
    (Stmt.exec (.userAchievementUpdateProgress userId achievement.id progress) w).isOk := by
  obtain ⟨row, hrow⟩ := Option.isSome_iff_exists.mp h
  simp only [Stmt.exec, hrow]
  rfl

theorem throughTx_unlockTx {Q : Unit → World → Prop} (h : Referable userId achievement w)
    (hQ : ∀ w', Grown w w' → Q () w') :
    throughTx createsAbsent Grown lockRank Q (unlockTx userId achievement) [] [] w := by
  unfold unlockTx
  intro w₁ h₁
  refine ⟨fun _ => rfl, fun now ws he => ?_⟩
  cases he
  refine ⟨fun l hl => absurd hl List.not_mem_nil, fun w₂ h₂ => ?_⟩
  have hgrown₂ := growth.trans h₁ h₂
  have href := h.grown hgrown₂
  refine ⟨fun _ => isOk_upsertUnlocked href _ _, fun _ ws he => ?_⟩
  obtain ⟨write, rfl, hlocks, husers⟩ : ∃ write, ws = [write] ∧
      write.locks = [.userAchievement userId achievement.id] ∧
        ∀ db, (view Stmt db [write]).users = db.users := by
    rcases exec_userAchievementUpsertUnlocked he with ⟨_, _, rfl⟩ | ⟨_, _, rfl⟩
    · exact ⟨_, rfl, rfl, fun _ => rfl⟩
    · exact ⟨_, rfl, rfl, fun _ => rfl⟩
  refine ⟨fun _ _ => Or.inr fun _ hl' => absurd hl' List.not_mem_nil, ?_⟩
  split
  · intro w₃ h₃
    have href₃ := href.grown h₃
    have hfound₃ : ((view Stmt w₃ [write]).users.find? userId).isSome := by
      rw [husers]
      exact href₃.user
    refine ⟨fun _ => isOk_userUpdate hfound₃ _, fun user ws he => ?_⟩
    obtain ⟨_, _, _, rfl⟩ := exec_userUpdate he
    refine ⟨fun l hl => Or.inr fun l' hl' => ?_, fun w₄ h₄ => ?_⟩
    · obtain rfl : l = .user userId := by simpa [Write.locks] using hl
      obtain rfl : l' = .userAchievement userId achievement.id := by simpa [hlocks] using hl'
      exact Nat.zero_lt_one
    · have hfound₄ : ((view Stmt w₄ ([write] ++ [bonusWrite userId achievement])).users.find?
          userId).isSome := by
        rw [view_append]
        refine isSome_modify (UserUpdate.id_apply _) ?_
        rw [husers]
        exact (href₃.grown h₄).user
      refine ⟨fun _ => isOk_userUpdate hfound₄ _, fun _ ws he => ?_⟩
      obtain ⟨_, _, _, rfl⟩ := exec_userUpdate he
      refine ⟨fun l hl => Or.inl ?_, fun w₅ h₅ => ?_⟩
      · obtain rfl : l = .user userId := by simpa [Write.locks] using hl
        simp [Write.locks]
      · exact hQ w₅ (growth.trans hgrown₂ (growth.trans h₃ (growth.trans h₄ h₅)))
  · exact fun w₃ h₃ => hQ w₃ (growth.trans hgrown₂ h₃)

theorem through_when_emit {Q : Unit → World → Prop} {c : Prop} [Decidable c] {event : AppEvent}
    (hQ : ∀ w', Grown w w' → Q () w') :
    through createsAbsent Grown lockRank Q (Prog.when c (emit event)) w := by
  unfold Prog.when
  split
  · refine fun w₁ h₁ => ⟨fun _ => rfl, fun _ ws he => ?_⟩
    cases exec_emit he
    exact fun w₂ h₂ => hQ w₂ (growth.trans h₁ h₂)
  · exact hQ

theorem through_unlock {Q : Unit → World → Prop} (h : Referable userId achievement w)
    (hQ : ∀ w', Grown w w' → Q () w') :
    through createsAbsent Grown lockRank Q (unlock userId achievement) w := by
  unfold unlock
  refine through_query (fun _ => rfl) fun w₁ h₁ => ?_
  refine throughTx_unlockTx (h.grown h₁) fun w₂ h₂ => ?_
  have hgrown₂ := growth.trans h₁ h₂
  refine fun w₃ h₃ => ⟨fun _ => rfl, fun _ ws he => ?_⟩
  cases exec_emit he
  have hgrown₃ := growth.trans hgrown₂ h₃
  dsimp only
  split
  · refine through_query (fun _ => rfl) fun w₄ h₄ => through_when_emit fun w₅ h₅ => ?_
    exact hQ w₅ (growth.trans hgrown₃ (growth.trans h₄ h₅))
  · exact fun w₄ h₄ => hQ w₄ (growth.trans hgrown₃ h₄)

theorem through_evaluateOne {Q : Unit → World → Prop} (h : Referable userId achievement w)
    (hQ : ∀ w', Grown w w' → Q () w') :
    through createsAbsent Grown lockRank Q (evaluateOne userId achievement) w := by
  unfold evaluateOne
  refine through_query (fun _ => rfl) fun w₁ h₁ => ?_
  have hQ₁ : ∀ w', Grown w₁ w' → Q () w' := fun w' h' => hQ w' (growth.trans h₁ h')
  split
  · exact hQ₁
  · refine through_queries growth evaluateWithProgress_queries fun result w₂ h₂ => ?_
    have href := (h.grown h₁).grown h₂
    have hQ₂ : ∀ w', Grown w₂ w' → Q () w' := fun w' h' => hQ₁ w' (growth.trans h₂ h')
    cases hexisting : w₁.userAchievements.find? (userId, achievement.id) with
    | some existing =>
        -- the row that was read is still there
        have hthere : (w₂.userAchievements.find? (userId, achievement.id)).isSome :=
          h₂.rows _ (Option.isSome_of_eq_some hexisting)
        dsimp only
        split
        · exact through_unlock href hQ₂
        · unfold Prog.when
          split
          · exact fun w₃ h₃ => ⟨fun _ => isOk_updateProgress (h₃.rows _ hthere) _,
              fun _ _ _ w₄ h₄ => hQ₂ w₄ (growth.trans h₃ h₄)⟩
          · exact hQ₂
    | none =>
        dsimp only
        split
        · exact through_unlock href hQ₂
        · unfold Prog.when
          split
          · exact fun w₃ h₃ => ⟨fun hguard => isOk_create (href.grown h₃)
                (Option.isNone_iff_eq_none.mp hguard) _,
              fun _ _ _ w₄ h₄ => hQ₂ w₄ (growth.trans h₃ h₄)⟩
          · exact hQ₂

theorem through_evaluateEach {definitions : List Achievement}
    (h : ∀ a ∈ definitions, Referable userId a w) : through createsAbsent Grown lockRank
      (fun _ _ => True) (evaluateEach userId definitions) w := by
  induction definitions generalizing w with
  | nil => exact fun _ _ => trivial
  | cons achievement rest ih =>
      apply through_bind growth
      refine through_evaluateOne (h achievement List.mem_cons_self) fun w' hw' => ?_
      exact ih fun a ha => (h a (List.mem_cons_of_mem _ ha)).grown hw'

-- An evaluation of a user who is there.
def EvaluatesUserOf (w : World) (p : Request Unit) : Prop :=
  ∃ userId, (w.users.find? userId).isSome ∧ p = evaluateForUser userId

theorem EvaluatesUserOf.through {p : Request Unit} (h : EvaluatesUserOf w p) :
    through createsAbsent Grown lockRank (fun _ _ => True) p w := by
  obtain ⟨userId, huser, rfl⟩ := h
  unfold evaluateForUser
  refine through_query (fun _ => rfl) fun w₁ h₁ => through_evaluateEach fun a ha => ?_
  exact ⟨h₁.users userId huser, Option.isSome_of_eq_some (Table.find?_of_mem ha)⟩

-- As long as no evaluation creates a row that another one has created since it looked,
-- none fails, and all come to the end of their lists.
theorem completes_of_unkilled {s : System Stmt World Write ApiError}
    (h : System.ReachesUnkilled (EvaluatesUserOf w) createsAbsent (System.init w) s) :
    s.Completes :=
  System.completes_of_through growth (fun _ hp => hp.through) h

-- Two evaluations that both unlock an achievement.
theorem completes_two_evaluations : ∃ s : System Stmt World Write ApiError,
    s.Completes ∧ s.threads.map Thread.answered = [true, true] := by
  have hps : ∀ p ∈ [evaluateForUser 1, evaluateForUser 1], EvaluatesUserOf settler p := by
    intro p hp
    exact ⟨1, by decide +kernel, by simpa using hp⟩
  obtain ⟨s, h, hobs⟩ := System.exists_unkilled_of_interleave (EvaluatesUserOf settler)
    createsAbsent (System.init settler) [evaluateForUser 1, evaluateForUser 1]
    ([0, 1, 0, 1, 0, 1] ++ List.replicate 9 0 ++ List.replicate 9 1)
    (fun s => s.threads.map Thread.answered) [true, true] hps (by decide +kernel)
  exact ⟨s, completes_of_unkilled h, hobs⟩

-- Both evaluations read that the user has no row, and then both create it.
theorem second_create_fails : ∃ s : System Stmt World Write ApiError,
    System.ReachesUnkilled (EvaluatesUserOf halfway) Guard.none (System.init halfway) s ∧
      s.threads.map Thread.failed = [none, some (.prisma .P2002)] ∧ ¬s.Completes := by
  have hps : ∀ p ∈ [evaluateForUser 1, evaluateForUser 1], EvaluatesUserOf halfway p := by
    intro p hp
    exact ⟨1, by decide +kernel, by simpa using hp⟩
  obtain ⟨s, h, hobs⟩ := System.exists_unkilled_of_interleave (EvaluatesUserOf halfway)
    Guard.none (System.init halfway) [evaluateForUser 1, evaluateForUser 1]
    [0, 1, 0, 1, 0, 1, 0, 1] (fun s => s.threads.map Thread.failed)
    [none, some (.prisma .P2002)] hps (by decide +kernel)
  refine ⟨s, h, hobs, fun hcompletes => ?_⟩
  have hnone : ∀ e ∈ s.threads.map Thread.failed, e = none := by
    intro e he
    obtain ⟨t, ht, rfl⟩ := List.mem_map.mp he
    exact hcompletes.failed t ht
  rw [hobs] at hnone
  exact absurd (hnone (some (.prisma .P2002)) (by simp)) (by simp)

end AchievementsService

end SideQuest
