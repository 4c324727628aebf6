import SideQuest.Model.Stats
import Mathlib.Analysis.Real.Sqrt
import Mathlib.Tactic.Positivity

-- The XP curve: the levels, and the progress within one.

namespace SideQuest

-- `Math.floor(Math.sqrt(xp / 100)) + 1` in exact arithmetic.
noncomputable def exactLevelFromXp (xp : ℤ) : ℤ :=
  if xp ≤ 0 then MIN_LEVEL else ⌊√((xp : ℝ) / 100)⌋ + 1

theorem xpForLevel_succ (n : ℕ) : xpForLevel (n + 1) = 100 * (n : ℤ) ^ 2 := by
  have hlevel : MIN_LEVEL ≤ n + 1 := Nat.le_add_left 1 n
  rw [xpForLevel, max_eq_right hlevel, Nat.add_sub_cancel]

theorem levelFromXp_of_nonneg {xp : ℤ} (hxp : 0 ≤ xp) :
    levelFromXp xp = Nat.sqrt (xp.toNat / 100) + 1 := by
  unfold levelFromXp
  split
  · rw [le_antisymm ‹xp ≤ 0› hxp]
    rfl
  · rfl

-- The levels are the intervals between the thresholds.
theorem levelFromXp_spec {xp : ℤ} (hxp : 0 ≤ xp) :
    xpForLevel (levelFromXp xp) ≤ xp ∧ xp < xpForLevel (levelFromXp xp + 1) := by
  obtain ⟨n, rfl⟩ := Int.eq_ofNat_of_zero_le hxp
  rw [levelFromXp_of_nonneg hxp, xpForLevel_succ, xpForLevel_succ, Int.toNat_natCast]
  have hlow : (n / 100).sqrt ^ 2 ≤ n / 100 := Nat.sqrt_le' _
  have hhigh : n / 100 < ((n / 100).sqrt + 1) ^ 2 := Nat.lt_succ_sqrt' _
  have hbelow : 100 * (n / 100).sqrt ^ 2 ≤ n := by omega
  have habove : n < 100 * ((n / 100).sqrt + 1) ^ 2 := by omega
  exact ⟨by exact_mod_cast hbelow, by exact_mod_cast habove⟩

theorem xpForLevel_mono {level level' : ℕ} (h : level ≤ level') :
    xpForLevel level ≤ xpForLevel level' := by
  have hsteps : max MIN_LEVEL level - 1 ≤ max MIN_LEVEL level' - 1 :=
    Nat.sub_le_sub_right (max_le_max_left MIN_LEVEL h) 1
  have hsquares := Nat.pow_le_pow_left hsteps 2
  unfold xpForLevel
  exact_mod_cast Nat.mul_le_mul_left 100 hsquares

theorem levelFromXp_pos (xp : ℤ) : 0 < levelFromXp xp := by
  unfold levelFromXp
  split
  · exact Nat.one_pos
  · exact Nat.succ_pos _

theorem levelFromXp_mono {xp xp' : ℤ} (h : xp ≤ xp') : levelFromXp xp ≤ levelFromXp xp' := by
  rcases lt_or_ge xp 0 with hneg | hxp
  · have hfirst : levelFromXp xp = MIN_LEVEL := if_pos hneg.le
    rw [hfirst]
    exact levelFromXp_pos xp'
  · -- a lower level of `xp'` would end before `xp`
    by_contra hlt
    have hbelow := (levelFromXp_spec (hxp.trans h)).2
    have hthreshold := xpForLevel_mono (Nat.succ_le_of_lt (not_le.mp hlt))
    have habove := (levelFromXp_spec hxp).1
    exact absurd (hbelow.trans_le (hthreshold.trans habove)) (not_lt.mpr h)

theorem levelFromXp_xpForLevel {level : ℕ} (hlevel : 1 ≤ level) :
    levelFromXp (xpForLevel level) = level := by
  obtain ⟨n, rfl⟩ := Nat.exists_eq_add_of_le' hlevel
  have hquotient : (100 * (n : ℤ) ^ 2).toNat / 100 = n * n := by
    have hcast : 100 * (n : ℤ) ^ 2 = ((100 * (n * n) : ℕ) : ℤ) := by
      push_cast
      ring
    rw [hcast, Int.toNat_natCast, Nat.mul_div_cancel_left _ (by omega)]
  rw [xpForLevel_succ, levelFromXp_of_nonneg (by positivity), hquotient, Nat.sqrt_eq]

-- The level is the one of the exact square root.
theorem levelFromXp_eq_exact (xp : ℤ) : (levelFromXp xp : ℤ) = exactLevelFromXp xp := by
  unfold exactLevelFromXp
  split
  · rw [levelFromXp, if_pos ‹xp ≤ 0›]
  · have hxp : 0 ≤ xp := (not_le.mp ‹¬xp ≤ 0›).le
    obtain ⟨n, hn⟩ := Nat.exists_eq_add_of_le' (levelFromXp_pos xp)
    obtain ⟨hbelow, habove⟩ := levelFromXp_spec hxp
    rw [hn, xpForLevel_succ] at hbelow habove
    have hlow : 100 * (n : ℝ) ^ 2 ≤ xp := by exact_mod_cast hbelow
    have hhigh : (xp : ℝ) < 100 * (n + 1) ^ 2 := by exact_mod_cast habove
    have hfloor : ⌊√((xp : ℝ) / 100)⌋ = n := by
      rw [Int.floor_eq_iff]
      constructor
      · refine Real.le_sqrt_of_sq_le ?_
        push_cast
        linarith
      · rw [Real.sqrt_lt' (by positivity)]
        push_cast
        linarith
    rw [hfloor, hn]
    push_cast
    rfl

-- No clamp of `progressFromXp` changes a value.
theorem progressFromXp_eq {xp : ℤ} (hxp : 0 ≤ xp) : progressFromXp xp =
    { level := levelFromXp xp
      currentXp := xp
      xpForCurrentLevel := xpForLevel (levelFromXp xp)
      xpForNextLevel := xpForLevel (levelFromXp xp + 1)
      xpIntoLevel := xp - xpForLevel (levelFromXp xp)
      xpToNextLevel := xpForLevel (levelFromXp xp + 1) - xp
      progressRatio := ((xp - xpForLevel (levelFromXp xp) : ℤ) : ℚ) /
        (xpForLevel (levelFromXp xp + 1) - xpForLevel (levelFromXp xp) : ℤ) } := by
  obtain ⟨hbelow, habove⟩ := levelFromXp_spec hxp
  have hspan : max 1 (xpForLevel (levelFromXp xp + 1) - xpForLevel (levelFromXp xp)) =
      xpForLevel (levelFromXp xp + 1) - xpForLevel (levelFromXp xp) := max_eq_right (by omega)
  have hnext : max 0 (xpForLevel (levelFromXp xp + 1) - xp) =
      xpForLevel (levelFromXp xp + 1) - xp := max_eq_right (by omega)
  have hratio : ((xp - xpForLevel (levelFromXp xp) : ℤ) : ℚ) /
      (xpForLevel (levelFromXp xp + 1) - xpForLevel (levelFromXp xp) : ℤ) ≤ 1 := by
    refine div_le_one_of_le₀ ?_ ?_
    · exact_mod_cast (by omega : xp - xpForLevel (levelFromXp xp) ≤
        xpForLevel (levelFromXp xp + 1) - xpForLevel (levelFromXp xp))
    · exact_mod_cast (by omega : 0 ≤
        xpForLevel (levelFromXp xp + 1) - xpForLevel (levelFromXp xp))
  unfold progressFromXp
  dsimp only
  rw [max_eq_right hxp, hspan, hnext, min_eq_right hratio]

-- What a player sees of his progress adds up.
structure LevelProgress.Consistent (p : LevelProgress) : Prop where
  into : 0 ≤ p.xpIntoLevel
  toNext : 0 < p.xpToNextLevel
  span : p.xpIntoLevel + p.xpToNextLevel = p.xpForNextLevel - p.xpForCurrentLevel
  ratio : 0 ≤ p.progressRatio ∧ p.progressRatio < 1

theorem progressFromXp_consistent {xp : ℤ} (hxp : 0 ≤ xp) : (progressFromXp xp).Consistent := by
  obtain ⟨hbelow, habove⟩ := levelFromXp_spec hxp
  have hinto : (0 : ℚ) ≤ (xp - xpForLevel (levelFromXp xp) : ℤ) := by
    exact_mod_cast sub_nonneg.mpr hbelow
  have hless : ((xp - xpForLevel (levelFromXp xp) : ℤ) : ℚ) <
      (xpForLevel (levelFromXp xp + 1) - xpForLevel (levelFromXp xp) : ℤ) := by
    exact_mod_cast sub_lt_sub_right habove _
  rw [progressFromXp_eq hxp]
  constructor
  · exact sub_nonneg.mpr hbelow
  · exact sub_pos.mpr habove
  · dsimp only
    omega
  · exact ⟨div_nonneg hinto (hinto.trans hless.le), (div_lt_one (hinto.trans_lt hless)).mpr hless⟩

-- The curve, for every number of XP and every level.
theorem xpCurve_consistent :
    (∀ xp : ℤ, (levelFromXp xp : ℤ) = exactLevelFromXp xp) ∧
    (∀ xp : ℤ, 0 ≤ xp →
      xpForLevel (levelFromXp xp) ≤ xp ∧ xp < xpForLevel (levelFromXp xp + 1)) ∧
    (∀ level : ℕ, 1 ≤ level → levelFromXp (xpForLevel level) = level) ∧
    (∀ xp xp' : ℤ, xp ≤ xp' → levelFromXp xp ≤ levelFromXp xp') ∧
    ∀ xp : ℤ, 0 ≤ xp → (progressFromXp xp).Consistent ∧ progressFromXp xp =
      { level := levelFromXp xp
        currentXp := xp
        xpForCurrentLevel := xpForLevel (levelFromXp xp)
        xpForNextLevel := xpForLevel (levelFromXp xp + 1)
        xpIntoLevel := xp - xpForLevel (levelFromXp xp)
        xpToNextLevel := xpForLevel (levelFromXp xp + 1) - xp
        progressRatio := ((xp - xpForLevel (levelFromXp xp) : ℤ) : ℚ) /
          (xpForLevel (levelFromXp xp + 1) - xpForLevel (levelFromXp xp) : ℤ) } :=
  ⟨levelFromXp_eq_exact, fun _ => levelFromXp_spec, fun _ => levelFromXp_xpForLevel,
    fun _ _ => levelFromXp_mono,
    fun _ hxp => ⟨progressFromXp_consistent hxp, progressFromXp_eq hxp⟩⟩

theorem xpCurve_at_399 : (levelFromXp 399 : ℤ) = exactLevelFromXp 399 ∧
    (xpForLevel (levelFromXp 399) ≤ 399 ∧ 399 < xpForLevel (levelFromXp 399 + 1)) ∧
    levelFromXp (xpForLevel 3) = 3 ∧ levelFromXp 399 ≤ levelFromXp 400 ∧
    (progressFromXp 399).Consistent := by
  obtain ⟨hexact, hspec, hinverse, hmono, hprogress⟩ := xpCurve_consistent
  exact ⟨hexact 399, hspec 399 (by decide), hinverse 3 (by decide), hmono 399 400 (by decide),
    (hprogress 399 (by decide)).1⟩

end SideQuest
