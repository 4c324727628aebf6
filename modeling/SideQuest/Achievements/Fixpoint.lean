import SideQuest.Achievements.Alone
import SideQuest.Achievements.UnlockedOnce
import SideQuest.Rewards.Curve

-- When one evaluation leaves nothing to do for the next one.

namespace SideQuest

open ReadCommitted

namespace AchievementsService

-- The criteria of an XP threshold, at a number of XP.
def xpEvaluation (criteria : AchievementCriteria) (xp : ℤ) : Evaluation :=
  ⟨criteria.minXp.any (fun m => m ≤ (xp : ℚ)) ||
      criteria.minLevel.any (fun m => m ≤ ((levelFromXp xp : ℤ) : ℚ)),
    if criteria.minXp.isSome then xp else levelFromXp xp⟩

-- Nothing that the criteria look at has changed, but for more XP.
structure Richer (userId : Id) (w w' : World) : Prop where
  completions : w'.completions = w.completions
  quests : w'.quests = w.quests
  questLocations : w'.questLocations = w.questLocations
  friendships : w'.friendships = w.friendships
  user : ∃ user user', w.users.find? userId = some user ∧ w'.users.find? userId = some user' ∧
    user'.streakDays = user.streakDays ∧ user.xp ≤ user'.xp

section Evaluation

variable {userId : Id} {w w' : World} {user : User} {achievement : Achievement}

theorem Richer.refl (huser : w.users.find? userId = some user) : Richer userId w w where
  completions := rfl
  quests := rfl
  questLocations := rfl
  friendships := rfl
  user := ⟨user, user, huser, huser, rfl, le_refl _⟩

theorem xpEvaluation_mono (criteria : AchievementCriteria) {xp xp' : ℤ} (h : xp ≤ xp') :
    ((xpEvaluation criteria xp).earned = true → (xpEvaluation criteria xp').earned = true) ∧
      (xpEvaluation criteria xp).progress ≤ (xpEvaluation criteria xp').progress := by
  have hlevel : ((levelFromXp xp : ℕ) : ℤ) ≤ levelFromXp xp' := by
    exact_mod_cast levelFromXp_mono h
  have hreached {minimum : Option ℚ} {n n' : ℤ} (hn : n ≤ n')
      (hn' : minimum.any (fun m => decide (m ≤ (n : ℚ))) = true) :
      minimum.any (fun m => decide (m ≤ (n' : ℚ))) = true := by
    cases minimum with
    | none => exact hn'
    | some m =>
        have hle : m ≤ (n : ℚ) := of_decide_eq_true hn'
        exact decide_eq_true (hle.trans (by exact_mod_cast hn))
  constructor
  · intro hearned
    rcases Bool.or_eq_true_iff.mp hearned with hxp | hl
    · exact Bool.or_eq_true_iff.mpr (Or.inl (hreached h hxp))
    · exact Bool.or_eq_true_iff.mpr (Or.inr (hreached hlevel hl))
  · unfold xpEvaluation
    dsimp only
    split
    · exact h
    · exact hlevel

theorem evaluation_xpThreshold (htype : achievement.type = .XP_THRESHOLD)
    (huser : w.users.find? userId = some user) : evaluation userId w achievement =
      xpEvaluation (parseCriteria achievement.criteria) user.xp := by
  unfold evaluation evaluateWithProgress
  rw [htype]
  simp only [Prog.call_bind, Prog.alone, Backend.exec, Stmt.exec, ask, huser]
  rfl

-- The other criteria do not look at the XP.
theorem Richer.evaluation_eq (h : Richer userId w w') (htype : achievement.type ≠ .XP_THRESHOLD) :
    evaluation userId w' achievement = evaluation userId w achievement := by
  obtain ⟨user, user', huser, huser', hstreak, _⟩ := h.user
  have hlocations (questId : Id) : w'.locationsOf questId = w.locationsOf questId := by
    rw [World.locationsOf, h.questLocations, World.locationsOf]
  unfold evaluation evaluateWithProgress
  cases hcase : achievement.type with
  | XP_THRESHOLD => exact absurd hcase htype
  | QUEST_COUNT =>
      dsimp only
      split
      · rfl
      · simp only [Prog.call_bind, Prog.alone, Backend.exec, Stmt.exec, ask, h.completions]
        rfl
  | CATEGORY_EXPLORER =>
      dsimp only
      split
      · split
        · rfl
        · simp only [Prog.call_bind, Prog.alone, Backend.exec, Stmt.exec, ask, h.completions,
            h.quests]
          rfl
      · rfl
  | LOCATION_VISITS =>
      dsimp only
      split
      · rfl
      · simp only [Prog.call_bind, Prog.alone, Backend.exec, Stmt.exec, ask, h.completions,
          hlocations]
        rfl
  | SOCIAL =>
      dsimp only
      split
      · rfl
      · simp only [Prog.call_bind, Prog.alone, Backend.exec, Stmt.exec, ask, h.friendships]
        rfl
  | STREAK =>
      dsimp only
      split
      · rfl
      · simp only [Prog.call_bind, Prog.alone, Backend.exec, Stmt.exec, ask, huser, huser']
        show Evaluation.ofCount _ user'.streakDays = Evaluation.ofCount _ user.streakDays
        rw [hstreak]
  | CUSTOM => rfl

theorem Richer.evaluation_mono (h : Richer userId w w') (achievement : Achievement) :
    ((evaluation userId w achievement).earned = true →
      (evaluation userId w' achievement).earned = true) ∧
    (evaluation userId w achievement).progress ≤ (evaluation userId w' achievement).progress := by
  by_cases htype : achievement.type = .XP_THRESHOLD
  · obtain ⟨user, user', huser, huser', _, hxp⟩ := h.user
    rw [evaluation_xpThreshold htype huser, evaluation_xpThreshold htype huser']
    exact xpEvaluation_mono _ hxp
  · rw [h.evaluation_eq htype]
    exact ⟨id, le_refl _⟩

-- With as many XP every criterion gives the same.
theorem Richer.evaluation_antisymm (h : Richer userId w w') (h' : Richer userId w' w)
    (achievement : Achievement) :
    evaluation userId w' achievement = evaluation userId w achievement := by
  obtain ⟨hearned, hprogress⟩ := h.evaluation_mono achievement
  obtain ⟨hearned', hprogress'⟩ := h'.evaluation_mono achievement
  have hsame : (evaluation userId w' achievement).earned = (evaluation userId w achievement).earned :=
    Bool.eq_iff_iff.mpr ⟨hearned', hearned⟩
  have hstored := le_antisymm hprogress' hprogress
  generalize evaluation userId w' achievement = after at hsame hstored ⊢
  generalize evaluation userId w achievement = before at hsame hstored ⊢
  cases after
  cases before
  cases hsame
  cases hstored
  rfl

end Evaluation

-- The state of one definition between two rounds.
section States

variable (userId : Id) (w : World) (achievement : Achievement)

def Unlocks : Prop :=
  ¬Unlocked userId achievement.id w ∧ (evaluation userId w achievement).earned = true

-- A round has nothing to store.
def UpToDate : Prop :=
  match w.userAchievements.find? (userId, achievement.id) with
  | some row => (evaluation userId w achievement).progress = row.progress
  | none => (evaluation userId w achievement).progress ≤ 0

-- The stored progress is too low.
def Behind : Prop :=
  match w.userAchievements.find? (userId, achievement.id) with
  | some row => row.progress < (evaluation userId w achievement).progress
  | none => 0 < (evaluation userId w achievement).progress

-- A round does nothing.
def Settled : Prop :=
  Unlocked userId achievement.id w ∨
    (evaluation userId w achievement).earned = false ∧ UpToDate userId w achievement

def Stale : Prop :=
  ¬Unlocked userId achievement.id w ∧
    ((evaluation userId w achievement).earned = true ∨ Behind userId w achievement)

-- The data once the bonus of an unlocked achievement is paid.
def paid : World :=
  if achievement.xpBonus > 0 then w.apply (bonusWrite userId achievement) else w

-- The bonus of `achievement` changes nothing that the evaluation of `earlier` stores or
-- decides.
def Spares (earlier : Achievement) : Prop :=
  Unlocked userId earlier.id w ∨
    (evaluation userId (paid userId w achievement) earlier).earned =
        (evaluation userId w earlier).earned ∧
      ((evaluation userId (paid userId w achievement) earlier).progress =
          (evaluation userId w earlier).progress ∨
        w.userAchievements.find? (userId, earlier.id) = none ∧
          (evaluation userId (paid userId w achievement) earlier).progress ≤ 0)

end States

-- What a round leaves behind.
def after (userId : Id) (achievement : Achievement) (w : World) : World :=
  ((evaluateOne userId achievement).alone w).2

-- Along the loop, no bonus that is paid changes what an earlier definition comes to.
def BonusesSpareEarlier (userId : Id) : List Achievement → List Achievement → World → Prop
  | _, [], _ => True
  | earlier, achievement :: rest, w =>
      (Unlocks userId w achievement → ∀ e ∈ earlier, Spares userId w achievement e) ∧
        BonusesSpareEarlier userId (achievement :: earlier) rest (after userId achievement w)

-- What one round does to its own definition, and to what the others look at.
section Round

variable {userId : Id} {w : World} {user : User} {achievement : Achievement}

-- The row that a round stores for a definition that is not earned.
def progressRow (userId : Id) (w : World) (achievement : Achievement) : UserAchievement :=
  match w.userAchievements.find? (userId, achievement.id) with
  | some row => { row with progress := (evaluation userId w achievement).progress }
  | none =>
      { userId := userId
        achievementId := achievement.id
        progress := (evaluation userId w achievement).progress }

theorem progress_progressRow (userId : Id) (w : World) (achievement : Achievement) :
    (progressRow userId w achievement).progress = (evaluation userId w achievement).progress := by
  unfold progressRow
  split <;> rfl

theorem upToDate_of_progressRow {w' : World} (hrow : w'.userAchievements.find?
      (userId, achievement.id) = some (progressRow userId w achievement))
    (heval : evaluation userId w' achievement = evaluation userId w achievement) :
    UpToDate userId w' achievement := by
  rw [UpToDate, hrow]
  show (evaluation userId w' achievement).progress = _
  rw [progress_progressRow, heval]

-- A round that stores some progress.
structure StoreRound (userId : Id) (achievement : Achievement) (w w' : World) : Prop where
  locked : ¬Unlocked userId achievement.id w
  notEarned : (evaluation userId w achievement).earned = false
  behind : ¬UpToDate userId w achievement
  same : Richer userId w w' ∧ Richer userId w' w
  achievements : w'.achievements = w.achievements
  row : w'.userAchievements.find? (userId, achievement.id) =
    some (progressRow userId w achievement)
  rows : ∀ id, id ≠ achievement.id →
    w'.userAchievements.find? (userId, id) = w.userAchievements.find? (userId, id)

-- A round that unlocks.
structure UnlockRound (userId : Id) (achievement : Achievement) (w w' : World) : Prop where
  unlocks : Unlocks userId w achievement
  same : Richer userId (paid userId w achievement) w' ∧ Richer userId w' (paid userId w achievement)
  achievements : w'.achievements = w.achievements
  unlocked : Unlocked userId achievement.id w'
  rows : ∀ id, id ≠ achievement.id →
    w'.userAchievements.find? (userId, id) = w.userAchievements.find? (userId, id)

theorem rows_unlockWrite (userId : Id) (w : World) (achievement : Achievement) :
    let w' := w.apply (unlockWrite userId w achievement)
    w'.unlockedAt userId achievement.id = some w.clock ∧ ∀ id, id ≠ achievement.id →
      w'.userAchievements.find? (userId, id) = w.userAchievements.find? (userId, id) := by
  dsimp only
  unfold unlockWrite
  cases hrow : w.userAchievements.find? (userId, achievement.id) with
  | some row =>
      refine ⟨?_, fun id hid => Table.find?_modify_ne _ _ (UserAchievementUpdate.key_apply _)
        fun h => hid (Prod.mk.inj h).2⟩
      rw [World.unlockedAt, World.apply, Table.find?_modify_self, hrow]
      rfl
  | none =>
      refine ⟨?_, fun id hid => Table.find?_insert_ne _ fun h => hid (Prod.mk.inj h).2.symm⟩
      rw [World.unlockedAt, World.apply, Table.find?_insert hrow]
      exact congrArg (Option.bind · UserAchievement.unlockedAt) (if_pos rfl)

theorem view_unlocking (userId : Id) (w : World) (user : User) (achievement : Achievement) :
    let w' := view Stmt w (unlockWrites userId w user achievement ++
      (unlockEvents userId user achievement).map .emit)
    w'.userAchievements = (w.apply (unlockWrite userId w achievement)).userAchievements ∧
      w'.achievements = w.achievements ∧ w'.completions = w.completions ∧ w'.quests = w.quests ∧
        w'.questLocations = w.questLocations ∧ w'.friendships = w.friendships ∧
          w'.users = (view Stmt w (unlockWrites userId w user achievement)).users := by
  dsimp only
  rw [view_append, view_emits]
  unfold unlockWrites unlockWrite
  split <;> split <;> exact ⟨rfl, rfl, rfl, rfl, rfl, rfl, rfl⟩

theorem unlocking_round (huser : w.users.find? userId = some user)
    (hunlocks : Unlocks userId w achievement) : UnlockRound userId achievement w
      (view Stmt w (unlockWrites userId w user achievement ++
        (unlockEvents userId user achievement).map .emit)) := by
  obtain ⟨hrows, hachievements, hcompletions, hquests, hlocations, hfriendships, husers⟩ :=
    view_unlocking userId w user achievement
  obtain ⟨hunlocked, hothers⟩ := rows_unlockWrite userId w achievement
  have hafter := find?_unlockWrites achievement huser
  rw [← husers] at hafter
  generalize view Stmt w (unlockWrites userId w user achievement ++ _) = w' at *
  have hpaid : ∃ before after, (paid userId w achievement).users.find? userId = some before ∧
      w'.users.find? userId = some after ∧ after.streakDays = before.streakDays ∧
        after.xp = before.xp := by
    unfold paid
    split
    · rename_i hbonus
      rw [if_pos hbonus] at hafter
      have hbefore := World.find?_userUpdate w userId { xp := .increment achievement.xpBonus } userId
      rw [if_pos rfl, huser] at hbefore
      exact ⟨_, _, hbefore, hafter, rfl, rfl⟩
    · rename_i hbonus
      rw [if_neg hbonus] at hafter
      exact ⟨user, user, huser, hafter, rfl, rfl⟩
  have hfacts : (paid userId w achievement).completions = w.completions ∧
      (paid userId w achievement).quests = w.quests ∧
        (paid userId w achievement).questLocations = w.questLocations ∧
          (paid userId w achievement).friendships = w.friendships := by
    unfold paid
    split <;> exact ⟨rfl, rfl, rfl, rfl⟩
  obtain ⟨before, after, hbefore, hafter, hstreak, hxp⟩ := hpaid
  refine ⟨hunlocks, ⟨?_, ?_⟩, hachievements, ?_, ?_⟩
  · exact ⟨by rw [hcompletions, hfacts.1], by rw [hquests, hfacts.2.1],
      by rw [hlocations, hfacts.2.2.1], by rw [hfriendships, hfacts.2.2.2],
      before, after, hbefore, hafter, hstreak, hxp.ge⟩
  · exact ⟨by rw [hcompletions, hfacts.1], by rw [hquests, hfacts.2.1],
      by rw [hlocations, hfacts.2.2.1], by rw [hfriendships, hfacts.2.2.2],
      after, before, hafter, hbefore, hstreak.symm, hxp.le⟩
  · rw [Unlocked, World.unlockedAt, hrows]
    exact Option.isSome_of_eq_some hunlocked
  · exact fun id hid => hrows ▸ hothers id hid

theorem storing_round {wr : Write} (huser : w.users.find? userId = some user)
    (hlocked : ¬Unlocked userId achievement.id w)
    (hearned : (evaluation userId w achievement).earned = false)
    (hbehind : ¬UpToDate userId w achievement)
    (hwr : (∃ row, w.userAchievements.find? (userId, achievement.id) = some row ∧
        wr = .userAchievementUpdate userId achievement.id
          { progress := some (evaluation userId w achievement).progress }) ∨
      w.userAchievements.find? (userId, achievement.id) = none ∧
        wr = .userAchievementCreate (progressRow userId w achievement)) :
    StoreRound userId achievement w (w.apply wr) := by
  have hrefl := Richer.refl huser
  rcases hwr with ⟨row, hrow, rfl⟩ | ⟨hnone, rfl⟩
  · refine ⟨hlocked, hearned, hbehind,
      ⟨⟨rfl, rfl, rfl, rfl, hrefl.user⟩, ⟨rfl, rfl, rfl, rfl, hrefl.user⟩⟩, rfl, ?_, ?_⟩
    · rw [World.apply, Table.find?_modify_self, progressRow, hrow]
      rfl
    · exact fun id hid => Table.find?_modify_ne _ _ (UserAchievementUpdate.key_apply _)
        fun h => hid (Prod.mk.inj h).2
  · have hkey : (progressRow userId w achievement).key = (userId, achievement.id) := by
      rw [progressRow, hnone]
      rfl
    refine ⟨hlocked, hearned, hbehind,
      ⟨⟨rfl, rfl, rfl, rfl, hrefl.user⟩, ⟨rfl, rfl, rfl, rfl, hrefl.user⟩⟩, rfl, ?_, ?_⟩
    · rw [World.apply, Table.find?_insert (by rwa [hkey]), if_pos hkey]
    · exact fun id hid => Table.find?_insert_ne _ fun h =>
        hid (Prod.mk.inj (hkey.symm.trans h)).2.symm

-- A round does nothing, unlocks or stores.
theorem round_cases (huser : w.users.find? userId = some user)
    (hdefined : (w.achievements.find? achievement.id).isSome) :
    (Settled userId w achievement ∧ after userId achievement w = w) ∨
      UnlockRound userId achievement w (after userId achievement w) ∨
        StoreRound userId achievement w (after userId achievement w) := by
  have hafter : after userId achievement w = view Stmt w (roundWrites userId w user achievement) :=
    congrArg Prod.snd (evaluateOne_alone huser hdefined)
  rw [hafter]
  unfold roundWrites
  by_cases hunlocked : Unlocked userId achievement.id w
  · rw [if_pos hunlocked]
    exact Or.inl ⟨Or.inl hunlocked, rfl⟩
  · rw [if_neg hunlocked]
    cases hearned : (evaluation userId w achievement).earned with
    | true =>
        rw [if_pos rfl]
        exact Or.inr (Or.inl (unlocking_round huser ⟨hunlocked, hearned⟩))
    | false =>
        rw [if_neg Bool.false_ne_true]
        have hstores {wr : Write} := @storing_round userId w user achievement wr huser hunlocked hearned
        cases hrow : w.userAchievements.find? (userId, achievement.id) with
        | some row =>
            dsimp only
            split
            · rename_i hne
              have hbehind : ¬UpToDate userId w achievement := by
                rw [UpToDate, hrow]
                exact hne
              exact Or.inr (Or.inr (hstores hbehind (Or.inl ⟨row, hrow, rfl⟩)))
            · rename_i heq
              have hcurrent : UpToDate userId w achievement := by
                rw [UpToDate, hrow]
                exact not_not.mp heq
              exact Or.inl ⟨Or.inr ⟨hearned, hcurrent⟩, rfl⟩
        | none =>
            dsimp only
            split
            · rename_i hpos
              have hbehind : ¬UpToDate userId w achievement := by
                rw [UpToDate, hrow]
                exact not_le.mpr hpos
              have hcreate : progressRow userId w achievement =
                  { userId := userId
                    achievementId := achievement.id
                    progress := (evaluation userId w achievement).progress } := by
                rw [progressRow, hrow]
              rw [← hcreate]
              exact Or.inr (Or.inr (hstores hbehind (Or.inr ⟨hrow, rfl⟩)))
            · rename_i hle
              have hcurrent : UpToDate userId w achievement := by
                rw [UpToDate, hrow]
                exact not_lt.mp hle
              exact Or.inl ⟨Or.inr ⟨hearned, hcurrent⟩, rfl⟩

end Round

-- What a round does to a definition, its own or another one.
section Effects

variable {userId : Id} {w w' : World} {user : User} {achievement earlier : Achievement}

theorem not_settled_of_stale (h : Stale userId w achievement) : ¬Settled userId w achievement := by
  obtain ⟨hlocked, hreason⟩ := h
  rintro (hunlocked | ⟨hearned, hcurrent⟩)
  · exact hlocked hunlocked
  · rcases hreason with hreason | hbehind
    · rw [hearned] at hreason
      cases hreason
    · unfold Behind at hbehind
      unfold UpToDate at hcurrent
      cases hrow : w.userAchievements.find? (userId, achievement.id) with
      | some row =>
          simp only [hrow] at hbehind hcurrent
          omega
      | none =>
          simp only [hrow] at hbehind hcurrent
          omega

section SameRow

variable (hrow : w'.userAchievements.find? (userId, earlier.id) =
    w.userAchievements.find? (userId, earlier.id))

include hrow

theorem unlocked_congr : Unlocked userId earlier.id w' ↔ Unlocked userId earlier.id w := by
  rw [Unlocked, World.unlockedAt, hrow, Unlocked, World.unlockedAt]

theorem settled_congr (heval : evaluation userId w' earlier = evaluation userId w earlier) :
    Settled userId w' earlier ↔ Settled userId w earlier := by
  rw [Settled, Settled, UpToDate, UpToDate, unlocked_congr hrow, hrow, heval]

theorem stale_congr (heval : evaluation userId w' earlier = evaluation userId w earlier) :
    Stale userId w' earlier ↔ Stale userId w earlier := by
  rw [Stale, Stale, Behind, Behind, unlocked_congr hrow, hrow, heval]

-- With more XP a definition that has had its round can only become stale.
theorem Stale.richer (h : Stale userId w earlier) (hricher : Richer userId w w') :
    Stale userId w' earlier := by
  obtain ⟨hearned, hprogress⟩ := hricher.evaluation_mono earlier
  refine ⟨fun hunlocked => h.1 ((unlocked_congr hrow).mp hunlocked), h.2.imp hearned ?_⟩
  unfold Behind
  rw [hrow]
  cases w.userAchievements.find? (userId, earlier.id) with
  | some row => exact fun hbehind => lt_of_lt_of_le hbehind hprogress
  | none => exact fun hbehind => lt_of_lt_of_le hbehind hprogress

theorem Settled.richer (h : Settled userId w earlier) (hricher : Richer userId w w') :
    Settled userId w' earlier ∨ Stale userId w' earlier := by
  obtain ⟨_, hprogress⟩ := hricher.evaluation_mono earlier
  by_cases hunlocked : Unlocked userId earlier.id w'
  · exact Or.inl (Or.inl hunlocked)
  · have hlocked : ¬Unlocked userId earlier.id w := fun h => hunlocked ((unlocked_congr hrow).mpr h)
    obtain ⟨_, hcurrent⟩ := h.resolve_left hlocked
    cases hearned : (evaluation userId w' earlier).earned with
    | true => exact Or.inr ⟨hunlocked, Or.inl hearned⟩
    | false =>
        have hbehind : UpToDate userId w' earlier ∨ Behind userId w' earlier := by
          unfold UpToDate Behind
          unfold UpToDate at hcurrent
          rw [hrow]
          cases hfound : w.userAchievements.find? (userId, earlier.id) with
          | some row =>
              simp only [hfound] at hcurrent ⊢
              omega
          | none =>
              simp only
              omega
        exact hbehind.imp (fun hcurrent' => Or.inr ⟨hearned, hcurrent'⟩)
          fun hbehind' => ⟨hunlocked, Or.inr hbehind'⟩

-- What is settled stays so exactly if the bonus spares it.
theorem Settled.spares_iff (h : Settled userId w earlier)
    (heval : evaluation userId w' earlier = evaluation userId (paid userId w achievement) earlier) :
    Settled userId w' earlier ↔ Spares userId w achievement earlier := by
  by_cases hunlocked : Unlocked userId earlier.id w
  · exact iff_of_true (Or.inl ((unlocked_congr hrow).mpr hunlocked)) (Or.inl hunlocked)
  · obtain ⟨hearned, hcurrent⟩ := h.resolve_left hunlocked
    rw [Settled, Spares, unlocked_congr hrow, or_iff_right hunlocked, or_iff_right hunlocked,
      heval, hearned]
    refine and_congr_right fun _ => ?_
    unfold UpToDate at hcurrent ⊢
    rw [hrow, heval]
    cases hfound : w.userAchievements.find? (userId, earlier.id) with
    | some row =>
        simp only [hfound] at hcurrent
        simp [hcurrent]
    | none =>
        simp only [hfound] at hcurrent
        simp only [true_and]
        omega

end SameRow

theorem richer_paid (huser : w.users.find? userId = some user) :
    Richer userId w (paid userId w achievement) := by
  unfold paid
  split
  · rename_i hbonus
    have hfound := World.find?_userUpdate w userId { xp := .increment achievement.xpBonus } userId
    rw [if_pos rfl, huser] at hfound
    refine ⟨rfl, rfl, rfl, rfl, user, _, huser, hfound, rfl, ?_⟩
    show user.xp ≤ user.xp + achievement.xpBonus
    omega
  · exact .refl huser

variable (huser : w.users.find? userId = some user)
  (hdefined : (w.achievements.find? achievement.id).isSome)

include huser hdefined

theorem achievements_after : (after userId achievement w).achievements = w.achievements := by
  rcases round_cases huser hdefined with ⟨_, hsame⟩ | hunlock | hstore
  · rw [hsame]
  · exact hunlock.achievements
  · exact hstore.achievements

theorem user_after : ∃ user', (after userId achievement w).users.find? userId = some user' := by
  rcases round_cases huser hdefined with ⟨_, hsame⟩ | hunlock | hstore
  · rw [hsame]
    exact ⟨user, huser⟩
  · obtain ⟨_, user', _, hfound, _⟩ := hunlock.same.1.user
    exact ⟨user', hfound⟩
  · obtain ⟨_, user', _, hfound, _⟩ := hstore.same.1.user
    exact ⟨user', hfound⟩

theorem row_after {id : Id} (hid : id ≠ achievement.id) :
    (after userId achievement w).userAchievements.find? (userId, id) =
      w.userAchievements.find? (userId, id) := by
  rcases round_cases huser hdefined with ⟨_, hsame⟩ | hunlock | hstore
  · rw [hsame]
  · exact hunlock.rows id hid
  · exact hstore.rows id hid

-- A round settles its own definition.
theorem settled_after : Settled userId (after userId achievement w) achievement := by
  rcases round_cases huser hdefined with ⟨hsettled, hsame⟩ | hunlock | hstore
  · rwa [hsame]
  · exact Or.inl hunlock.unlocked
  · have heval := hstore.same.1.evaluation_antisymm hstore.same.2 achievement
    exact Or.inr ⟨heval ▸ hstore.notEarned, upToDate_of_progressRow hstore.row heval⟩

-- A round that leaves its row as it was has done nothing.
theorem settled_of_row_after (hrow : (after userId achievement w).userAchievements.find?
    (userId, achievement.id) = w.userAchievements.find? (userId, achievement.id)) :
    Settled userId w achievement ∧ after userId achievement w = w := by
  rcases round_cases huser hdefined with hnothing | hunlock | hstore
  · exact hnothing
  · exact absurd ((unlocked_congr hrow).mp hunlock.unlocked) hunlock.unlocks.1
  · refine absurd ?_ hstore.behind
    exact upToDate_of_progressRow (hrow.symm.trans hstore.row) rfl

theorem after_of_settled (h : Settled userId w achievement) : after userId achievement w = w := by
  rcases round_cases huser hdefined with ⟨_, hsame⟩ | hunlock | hstore
  · exact hsame
  · rcases h with hunlocked | ⟨hearned, _⟩
    · exact absurd hunlocked hunlock.unlocks.1
    · rw [hunlock.unlocks.2] at hearned
      cases hearned
  · rcases h with hunlocked | ⟨_, hcurrent⟩
    · exact absurd hunlocked hstore.locked
    · exact absurd hcurrent hstore.behind

-- What a round does to an earlier definition.
section Earlier

variable (hne : earlier.id ≠ achievement.id)

include hne

theorem settled_after_iff (h : Settled userId w earlier) :
    Settled userId (after userId achievement w) earlier ↔
      (Unlocks userId w achievement → Spares userId w achievement earlier) := by
  have hrow := row_after huser hdefined hne
  rcases round_cases huser hdefined with ⟨hsettled, hsame⟩ | hunlock | hstore
  · have hkeeps : ¬Unlocks userId w achievement := by
      rintro ⟨hlocked, hearned⟩
      rw [(hsettled.resolve_left hlocked).1] at hearned
      cases hearned
    rw [hsame]
    exact iff_of_true h fun hunlocks => absurd hunlocks hkeeps
  · have heval := hunlock.same.1.evaluation_antisymm hunlock.same.2 earlier
    rw [h.spares_iff hrow heval]
    exact ⟨fun hspares _ => hspares, fun hspares => hspares hunlock.unlocks⟩
  · have heval := hstore.same.1.evaluation_antisymm hstore.same.2 earlier
    have hkeeps : ¬Unlocks userId w achievement := by
      rintro ⟨_, hearned⟩
      rw [hstore.notEarned] at hearned
      cases hearned
    exact iff_of_true ((settled_congr hrow heval).mpr h) fun hunlocks => absurd hunlocks hkeeps

-- For an earlier definition a round comes to more XP at most.
theorem richer_after : ∃ w₁, Richer userId w w₁ ∧
    w₁.userAchievements.find? (userId, earlier.id) =
      w.userAchievements.find? (userId, earlier.id) ∧
    (after userId achievement w).userAchievements.find? (userId, earlier.id) =
      w₁.userAchievements.find? (userId, earlier.id) ∧
    evaluation userId (after userId achievement w) earlier = evaluation userId w₁ earlier := by
  have hrow := row_after huser hdefined hne
  rcases round_cases huser hdefined with ⟨_, hsame⟩ | hunlock | hstore
  · exact ⟨w, .refl huser, rfl, hrow, by rw [hsame]⟩
  · have hrows : (paid userId w achievement).userAchievements = w.userAchievements := by
      unfold paid
      split <;> rfl
    refine ⟨paid userId w achievement, richer_paid huser, by rw [hrows], by rw [hrow, hrows], ?_⟩
    exact hunlock.same.1.evaluation_antisymm hunlock.same.2 earlier
  · exact ⟨w, .refl huser, rfl, hrow, hstore.same.1.evaluation_antisymm hstore.same.2 earlier⟩

theorem stale_after (h : Stale userId w earlier) :
    Stale userId (after userId achievement w) earlier := by
  obtain ⟨w₁, hricher, hrow₁, hrow, heval⟩ := richer_after huser hdefined hne
  exact (stale_congr hrow heval).mpr (h.richer hrow₁ hricher)

theorem visited_after (h : Settled userId w earlier ∨ Stale userId w earlier) :
    Settled userId (after userId achievement w) earlier ∨
      Stale userId (after userId achievement w) earlier := by
  rcases h with hsettled | hstale
  · obtain ⟨w₁, hricher, hrow₁, hrow, heval⟩ := richer_after huser hdefined hne
    exact (hsettled.richer hrow₁ hricher).imp (settled_congr hrow heval).mpr
      (stale_congr hrow heval).mpr
  · exact Or.inr (stale_after huser hdefined hne hstale)

end Earlier

end Effects

-- The loop, round by round.
section Loop

variable {userId : Id} {w : World} {achievement : Achievement} {rest earlier : List Achievement}

-- The user is there, and so are the definitions that are still to come.
structure Ready (userId : Id) (definitions : List Achievement) (w : World) : Prop where
  user : ∃ user, w.users.find? userId = some user
  defined : ∀ a ∈ definitions, (w.achievements.find? a.id).isSome

theorem Ready.after (h : Ready userId (achievement :: rest) w) :
    Ready userId rest (after userId achievement w) := by
  obtain ⟨user, huser⟩ := h.user
  have hdefined := h.defined achievement List.mem_cons_self
  refine ⟨user_after huser hdefined, fun a ha => ?_⟩
  rw [achievements_after huser hdefined]
  exact h.defined a (List.mem_cons_of_mem _ ha)

theorem evaluateEach_alone {definitions : List Achievement} (h : Ready userId definitions w) :
    (evaluateEach userId definitions).alone w =
      (.ok (), oneByOne (after userId) definitions w) := by
  induction definitions generalizing w with
  | nil => rfl
  | cons achievement rest ih =>
      obtain ⟨user, huser⟩ := h.user
      have hround : (evaluateOne userId achievement).alone w =
          (.ok (), AchievementsService.after userId achievement w) := by
        rw [AchievementsService.after,
          evaluateOne_alone huser (h.defined achievement List.mem_cons_self)]
      exact (Prog.alone_bind hround).trans (ih h.after)

section Visited

variable {user : User} (huser : w.users.find? userId = some user)
  (hdefined : (w.achievements.find? achievement.id).isSome)
  (hne : ∀ e ∈ earlier, e.id ≠ achievement.id)
  (hvisited : ∀ e ∈ earlier, Settled userId w e ∨ Stale userId w e)

include huser hdefined hne hvisited

theorem visited_cons : ∀ e ∈ achievement :: earlier, Settled userId (after userId achievement w) e ∨
    Stale userId (after userId achievement w) e := by
  intro e he
  rcases List.mem_cons.mp he with rfl | he
  · exact Or.inl (settled_after huser hdefined)
  · exact visited_after huser hdefined (hne e he) (hvisited e he)

-- A round leaves all settled exactly if all were, and its bonus spares them.
theorem settled_cons_iff : (∀ e ∈ achievement :: earlier, Settled userId (after userId achievement w) e) ↔
    (∀ e ∈ earlier, Settled userId w e) ∧
      (Unlocks userId w achievement → ∀ e ∈ earlier, Spares userId w achievement e) := by
  constructor
  · intro hsettled
    have hall : ∀ e ∈ earlier, Settled userId w e := by
      intro e he
      refine (hvisited e he).resolve_right fun hstale => ?_
      exact not_settled_of_stale (stale_after huser hdefined (hne e he) hstale)
        (hsettled e (List.mem_cons_of_mem _ he))
    refine ⟨hall, fun hunlocks e he => ?_⟩
    exact (settled_after_iff huser hdefined (hne e he) (hall e he)).mp
      (hsettled e (List.mem_cons_of_mem _ he)) hunlocks
  · rintro ⟨hall, hspares⟩ e he
    rcases List.mem_cons.mp he with rfl | he
    · exact settled_after huser hdefined
    · exact (settled_after_iff huser hdefined (hne e he) (hall e he)).mpr
        fun hunlocks => hspares hunlocks e he

end Visited

-- The loop has settled all definitions exactly if no bonus changes what came before.
theorem settled_loop_iff (h : Ready userId rest w)
    (hdistinct : ((earlier ++ rest).map Achievement.id).Nodup)
    (hvisited : ∀ e ∈ earlier, Settled userId w e ∨ Stale userId w e) :
    (∀ e, e ∈ earlier ∨ e ∈ rest → Settled userId (oneByOne (after userId) rest w) e) ↔
      (∀ e ∈ earlier, Settled userId w e) ∧ BonusesSpareEarlier userId earlier rest w := by
  induction rest generalizing earlier w with
  | nil =>
      constructor
      · exact fun hall => ⟨fun e he => hall e (Or.inl he), trivial⟩
      · rintro ⟨hall, _⟩ e he
        exact hall e (he.resolve_right List.not_mem_nil)
  | cons achievement rest ih =>
      obtain ⟨user, huser⟩ := h.user
      have hdefined := h.defined achievement List.mem_cons_self
      have hperm : (achievement :: earlier ++ rest).Perm (earlier ++ achievement :: rest) :=
        List.perm_middle.symm
      have hdistinct' := (hperm.map Achievement.id).nodup_iff.mpr hdistinct
      have hne : ∀ e ∈ earlier, e.id ≠ achievement.id := by
        intro e he hid
        rw [List.cons_append, List.map_cons, List.nodup_cons] at hdistinct'
        exact hdistinct'.1 (hid ▸ List.mem_map_of_mem (List.mem_append_left _ he))
      have hmem (e : Achievement) : e ∈ earlier ∨ e ∈ achievement :: rest ↔
          e ∈ achievement :: earlier ∨ e ∈ rest := by
        simp only [List.mem_cons]
        tauto
      simp only [hmem]
      show (∀ e, _ → Settled userId (oneByOne (after userId) rest (after userId achievement w)) e) ↔ _
      rw [ih h.after hdistinct' (visited_cons huser hdefined hne hvisited),
        settled_cons_iff huser hdefined hne hvisited, and_assoc]
      rfl

-- The loop only changes the rows of its own definitions.
theorem row_loop {definitions : List Achievement} (h : Ready userId definitions w) {id : Id}
    (hid : ∀ a ∈ definitions, id ≠ a.id) :
    (oneByOne (after userId) definitions w).userAchievements.find? (userId, id) =
      w.userAchievements.find? (userId, id) := by
  induction definitions generalizing w with
  | nil => rfl
  | cons achievement rest ih =>
      obtain ⟨user, huser⟩ := h.user
      have hrest := ih h.after fun a ha => hid a (List.mem_cons_of_mem _ ha)
      exact hrest.trans (row_after huser (h.defined achievement List.mem_cons_self)
        (hid achievement List.mem_cons_self))

theorem achievements_loop {definitions : List Achievement} (h : Ready userId definitions w) :
    (oneByOne (after userId) definitions w).achievements = w.achievements ∧
      Ready userId [] (oneByOne (after userId) definitions w) := by
  induction definitions generalizing w with
  | nil => exact ⟨rfl, h⟩
  | cons achievement rest ih =>
      obtain ⟨user, huser⟩ := h.user
      obtain ⟨hachievements, hready⟩ := ih h.after
      have hround := achievements_after huser (h.defined achievement List.mem_cons_self)
      exact ⟨hachievements.trans hround, hready⟩

-- The loop changes nothing exactly if everything is settled. Each row changes in one
-- round only, so nothing that a round does is undone by a later one.
theorem loop_eq_iff {definitions : List Achievement} (h : Ready userId definitions w)
    (hdistinct : (definitions.map Achievement.id).Nodup) :
    oneByOne (after userId) definitions w = w ↔ ∀ a ∈ definitions, Settled userId w a := by
  induction definitions generalizing w with
  | nil => exact iff_of_true rfl fun _ ha => absurd ha List.not_mem_nil
  | cons achievement rest ih =>
      obtain ⟨user, huser⟩ := h.user
      have hdefined := h.defined achievement List.mem_cons_self
      rw [List.map_cons, List.nodup_cons] at hdistinct
      have hnext := h.after
      have hother : ∀ a ∈ rest, achievement.id ≠ a.id :=
        fun a ha hid => hdistinct.1 (hid ▸ List.mem_map_of_mem ha)
      constructor
      · intro hsame
        have hloop : oneByOne (after userId) rest (after userId achievement w) = w := hsame
        have hrow := row_loop hnext hother
        rw [hloop] at hrow
        obtain ⟨hsettled, hround⟩ := settled_of_row_after huser hdefined hrow.symm
        rw [hround] at hnext hloop
        intro a ha
        rcases List.mem_cons.mp ha with rfl | ha
        · exact hsettled
        · exact (ih hnext hdistinct.2).mp hloop a ha
      · intro hall
        have hround := after_of_settled huser hdefined (hall achievement List.mem_cons_self)
        rw [hround] at hnext
        have hloop := (ih hnext hdistinct.2).mpr fun a ha => hall a (List.mem_cons_of_mem _ ha)
        show oneByOne (after userId) rest (after userId achievement w) = w
        rw [hround, hloop]

end Loop

-- Every definition whose criterion holds is unlocked, and another evaluation changes
-- nothing and emits nothing.
structure Fixpoint (userId : Id) (w : World) : Prop where
  unlocked : ∀ a ∈ w.achievements.rows, ∀ result,
    (evaluateWithProgress a userId).alone w = (.ok result, w) → result.earned = true →
      Unlocked userId a.id w
  again : (evaluateForUser userId).alone w = (.ok (), w)

section Fixpoint

variable {userId : Id} {w : World}

theorem ready_rows (h : (w.users.find? userId).isSome) : Ready userId w.achievements.rows w where
  user := Option.isSome_iff_exists.mp h
  defined _ ha := Option.isSome_of_eq_some (Table.find?_of_mem ha)

theorem evaluateForUser_alone (h : (w.users.find? userId).isSome) : (evaluateForUser userId).alone w =
    (.ok (), oneByOne (after userId) w.achievements.rows w) := by
  have hdefinitions : Stmt.exec .achievementFindMany w = .ok (w.achievements.rows, []) := rfl
  exact (Prog.alone_query hdefinitions).trans (evaluateEach_alone (ready_rows h))

theorem fixpoint_iff_settled (h : (w.users.find? userId).isSome) :
    Fixpoint userId w ↔ ∀ a ∈ w.achievements.rows, Settled userId w a := by
  have hloop := loop_eq_iff (ready_rows h) w.achievements.nodup
  constructor
  · intro hfixpoint
    have hagain := (evaluateForUser_alone h).symm.trans hfixpoint.again
    exact hloop.mp (Prod.mk.inj hagain).2
  · intro hall
    refine ⟨fun a ha _ hresult hearned => ?_, ?_⟩
    · rw [evaluateWithProgress_alone] at hresult
      obtain rfl := Except.ok.inj (Prod.mk.inj hresult).1
      refine (hall a ha).resolve_right fun hlocked => ?_
      rw [hlocked.1] at hearned
      cases hearned
    · rw [evaluateForUser_alone h, hloop.mpr hall]

-- An evaluation leaves nothing to do for the next one exactly if no bonus that it pays
-- changes what a definition comes to that it has already passed.
theorem fixpoint_iff_bonusesSpareEarlier (h : (w.users.find? userId).isSome) :
    ∃ w', (evaluateForUser userId).alone w = (.ok (), w') ∧
      (Fixpoint userId w' ↔ BonusesSpareEarlier userId [] w.achievements.rows w) := by
  refine ⟨_, evaluateForUser_alone h, ?_⟩
  have hready := ready_rows h
  obtain ⟨hachievements, hthere⟩ := achievements_loop hready
  obtain ⟨user, huser⟩ := hthere.user
  rw [fixpoint_iff_settled (Option.isSome_of_eq_some huser), hachievements]
  have hvisited : ∀ e ∈ ([] : List Achievement), Settled userId w e ∨ Stale userId w e :=
    fun _ he => absurd he List.not_mem_nil
  have hdistinct : (([] ++ w.achievements.rows).map Achievement.id).Nodup := w.achievements.nodup
  have hall := settled_loop_iff hready hdistinct hvisited
  simp only [List.not_mem_nil, false_or, false_imp_iff, implies_true, true_and] at hall
  exact hall

end Fixpoint

-- An achievement for everyone, and one for the second level.
def welcome : Achievement where
  id := 1
  slug := "welcome"
  type := .QUEST_COUNT
  criteria := .obj [("minQuests", .num 0)]
  xpBonus := 100

def secondLevel : Achievement where
  id := 2
  slug := "second-level"
  type := .XP_THRESHOLD
  criteria := .obj [("minLevel", .num 2)]

def offering (definitions : List Achievement) : World :=
  { settler with achievements := definitions.foldl Table.insert Table.empty }

-- The bonus comes first, and the level right after it.
theorem fixpoint_bonus_first : ∃ w',
    (evaluateForUser 1).alone (offering [welcome, secondLevel]) = (.ok (), w') ∧ Fixpoint 1 w' ∧
      Unlocked 1 2 w' := by
  have hspares : BonusesSpareEarlier 1 [] (offering [welcome, secondLevel]).achievements.rows
      (offering [welcome, secondLevel]) := by
    refine ⟨fun _ e he => absurd he List.not_mem_nil, fun _ e he => Or.inl ?_, trivial⟩
    rw [List.mem_singleton.mp he]
    decide +kernel
  have huser : ((offering [welcome, secondLevel]).users.find? 1).isSome := by decide +kernel
  obtain ⟨w', hrun, hiff⟩ := fixpoint_iff_bonusesSpareEarlier huser
  refine ⟨w', hrun, hiff.mpr hspares, ?_⟩
  have hunlocked : Unlocked 1 2 ((evaluateForUser 1).alone (offering [welcome, secondLevel])).2 := by
    decide +kernel
  rwa [hrun] at hunlocked

-- The bonus comes too late: the user has reached the second level, which only another
-- evaluation unlocks and announces.
theorem level_unlocked_by_second_evaluation :
    let w' := ((evaluateForUser 1).alone (offering [secondLevel, welcome])).2
    (evaluation 1 w' secondLevel).earned = true ∧ ¬Unlocked 1 2 w' ∧ ¬Fixpoint 1 w' ∧
      ((evaluateForUser 1).alone w').2.events =
        w'.events ++ [.achievementUnlocked 1 2 "second-level"] := by
  dsimp only
  have hstate : let w' := ((evaluateForUser 1).alone (offering [secondLevel, welcome])).2
      ((evaluation 1 w' secondLevel).earned = true ∧ ¬Unlocked 1 2 w') ∧
        ((evaluateForUser 1).alone w').2.events =
          w'.events ++ [.achievementUnlocked 1 2 "second-level"] := by decide +kernel
  obtain ⟨⟨hearned, hlocked⟩, hevents⟩ := hstate
  refine ⟨hearned, hlocked, fun hfixpoint => ?_, hevents⟩
  rw [hfixpoint.again] at hevents
  exact absurd (congrArg List.length hevents) (by simp)

end AchievementsService

end SideQuest
