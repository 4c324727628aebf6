import Mathlib.Data.Int.Log
import Mathlib.Data.Rat.Floor
import Mathlib.Tactic.Linarith
import Mathlib.Tactic.NormNum
import Mathlib.Tactic.Positivity

-- Arithmetic in doubles, on rationals: every result is rounded to 53 significant bits, a
-- tie to the even neighbour. Overflow and subnormal numbers are left out.

namespace Double

def roundEven (x : ℚ) : ℤ :=
  let n := ⌊x⌋
  if x - n < 1 / 2 then n
  else if 1 / 2 < x - n then n + 1
  else if n % 2 = 0 then n
  else n + 1

-- The distance of two doubles next to `x`.
def ulp (x : ℚ) : ℚ := 2 ^ (Int.log 2 |x| - 52)

def round (x : ℚ) : ℚ := roundEven (x / ulp x) * ulp x

variable {x : ℚ}

theorem ulp_pos (x : ℚ) : 0 < ulp x := zpow_pos (by decide) _

theorem roundEven_le {n : ℤ} (h : x ≤ n) : roundEven x ≤ n := by
  have hfloor : ⌊x⌋ ≤ n := Int.floor_le_iff.mpr (h.trans_lt (lt_add_one _))
  rcases hfloor.lt_or_eq with hlt | heq
  · unfold roundEven
    dsimp only
    split_ifs <;> omega
  · have hx : x = n := le_antisymm h (heq ▸ Int.floor_le x)
    have hexact : x - (⌊x⌋ : ℚ) < 1 / 2 := by
      rw [heq, hx, sub_self]
      norm_num
    unfold roundEven
    rw [if_pos hexact]
    exact hfloor

theorem roundEven_nonneg (h : 0 ≤ x) : 0 ≤ roundEven x := by
  have hfloor : 0 ≤ ⌊x⌋ := Int.floor_nonneg.mpr h
  unfold roundEven
  dsimp only
  split_ifs <;> omega

theorem round_nonneg (h : 0 ≤ x) : 0 ≤ round x := by
  have hsteps : (0 : ℚ) ≤ roundEven (x / ulp x) := by
    exact_mod_cast roundEven_nonneg (div_nonneg h (ulp_pos x).le)
  exact mul_nonneg hsteps (ulp_pos x).le

-- Below 2^53 every natural number is a whole number of the steps between smaller doubles.
theorem exists_steps {n : ℕ} (hn : n < 2 ^ 53) (hpos : 0 < x) (hle : x ≤ n) :
    ∃ steps : ℤ, (n : ℚ) / ulp x = steps := by
  have hlog : Int.log 2 |x| < 53 := by
    rw [abs_of_pos hpos]
    refine (Int.lt_zpow_iff_log_lt (by decide) hpos).mp ?_
    have hcast : (n : ℚ) < 2 ^ 53 := by exact_mod_cast hn
    exact hle.trans_lt hcast
  obtain ⟨k, hk⟩ := Int.eq_ofNat_of_zero_le (by omega : 0 ≤ 52 - Int.log 2 |x|)
  have hulp : ulp x = ((2 : ℚ) ^ k)⁻¹ := by
    have hexponent : Int.log 2 |x| - 52 = -(k : ℤ) := by omega
    rw [ulp, hexponent, zpow_neg, zpow_natCast]
  refine ⟨n * 2 ^ k, ?_⟩
  rw [hulp, div_inv_eq_mul]
  push_cast
  rfl

theorem round_le_natCast {n : ℕ} (hn : n < 2 ^ 53) (h : x ≤ n) : round x ≤ n := by
  have hulp := ulp_pos x
  obtain ⟨steps, hsteps, hle⟩ : ∃ steps : ℤ, x / ulp x ≤ steps ∧ steps * ulp x ≤ n := by
    by_cases hpos : 0 < x
    · obtain ⟨steps, hsteps⟩ := exists_steps hn hpos h
      refine ⟨steps, hsteps ▸ (div_le_div_iff_of_pos_right hulp).mpr h, ?_⟩
      rw [← hsteps, div_mul_cancel₀ _ hulp.ne']
    · refine ⟨0, ?_, by simp⟩
      rw [Int.cast_zero]
      exact div_nonpos_of_nonpos_of_nonneg (not_lt.mp hpos) hulp.le
  have hround : (roundEven (x / ulp x) : ℚ) ≤ steps := by exact_mod_cast roundEven_le hsteps
  exact (mul_le_mul_of_nonneg_right hround hulp.le).trans hle

end Double
