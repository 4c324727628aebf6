import Mathlib.Analysis.Convex.SpecificFunctions.Deriv
import Mathlib.Analysis.SpecialFunctions.Trigonometric.Bounds
import Mathlib.Analysis.SpecialFunctions.Trigonometric.Inverse

-- Points of a sphere by latitude and longitude, in radians: which points are within an
-- angle of a center, and how far from its latitude and its longitude they are.

open Real

namespace Sphere

variable {δ φ φ' lam Δ : ℝ}

-- The cosine of the angle between two points whose longitudes differ by `Δ`.
noncomputable def cosAngle (φ φ' Δ : ℝ) : ℝ := sin φ * sin φ' + cos φ * cos φ' * cos Δ

def Within (δ φ φ' Δ : ℝ) : Prop := cos δ ≤ cosAngle φ φ' Δ

theorem haversine_eq (φ φ' Δ : ℝ) :
    sin ((φ' - φ) / 2) ^ 2 + cos φ * cos φ' * sin (Δ / 2) ^ 2 = (1 - cosAngle φ φ' Δ) / 2 := by
  have hlat : cos (φ' - φ) = cos φ' * cos φ + sin φ' * sin φ := cos_sub φ' φ
  rw [sin_sq_eq_half_sub, sin_sq_eq_half_sub, mul_div_cancel₀ _ two_ne_zero,
    mul_div_cancel₀ _ two_ne_zero, hlat, cosAngle]
  ring

-- The haversine formula measures the angle.
theorem arcsin_haversine_le_iff (hδ : 0 ≤ δ) (hδπ : δ < π) :
    arcsin (min 1 √(sin ((φ' - φ) / 2) ^ 2 + cos φ * cos φ' * sin (Δ / 2) ^ 2)) ≤ δ / 2 ↔
      Within δ φ φ' Δ := by
  have hsin : 0 ≤ sin (δ / 2) := sin_nonneg_of_nonneg_of_le_pi (by linarith) (by linarith)
  have hone : ¬1 ≤ sin (δ / 2) := by
    have hlt := sin_lt_sin_of_lt_of_le_pi_div_two (x := δ / 2) (y := π / 2) (by linarith) le_rfl
      (by linarith)
    rw [sin_pi_div_two] at hlt
    exact not_le.mpr hlt
  rw [haversine_eq, arcsin_le_iff_le_sin' ⟨by linarith, by linarith⟩, min_le_iff,
    or_iff_right hone, sqrt_le_iff, and_iff_right hsin, sin_sq_eq_half_sub,
    mul_div_cancel₀ _ two_ne_zero, Within]
  constructor <;> intro h <;> linarith

theorem cos_nonneg_of_abs_le (h : |φ| ≤ π / 2) : 0 ≤ cos φ :=
  cos_nonneg_of_mem_Icc (abs_le.mp h)

theorem abs_le_of_cos_le {x : ℝ} (hδ : 0 ≤ δ) (hx : |x| ≤ π) (h : cos δ ≤ cos x) : |x| ≤ δ := by
  by_contra hlt
  have hcos := cos_lt_cos_of_nonneg_of_le_pi hδ hx (not_le.mp hlt)
  rw [cos_abs] at hcos
  exact absurd h (not_le.mpr hcos)

-- Points within an angle differ by no more in latitude.
theorem Within.abs_lat_le (hδ : 0 ≤ δ) (hφ : |φ| ≤ π / 2) (hφ' : |φ'| ≤ π / 2)
    (h : Within δ φ φ' Δ) : |φ' - φ| ≤ δ := by
  refine abs_le_of_cos_le hδ ?_ ?_
  · calc |φ' - φ| ≤ |φ'| + |φ| := abs_sub φ' φ
      _ ≤ π := by linarith
  · have hprod : cos φ * cos φ' * cos Δ ≤ cos φ * cos φ' :=
      mul_le_of_le_one_right (mul_nonneg (cos_nonneg_of_abs_le hφ) (cos_nonneg_of_abs_le hφ'))
        (cos_le_one Δ)
    have hlat : cos (φ' - φ) = cos φ' * cos φ + sin φ' * sin φ := cos_sub φ' φ
    have hwithin : cos δ ≤ sin φ * sin φ' + cos φ * cos φ' * cos Δ := h
    rw [hlat]
    linarith

-- A pole that is within the angle is so at any longitude.
theorem within_pole (hδπ : δ ≤ π) (hφ : |φ| ≤ π / 2) (hpole : π / 2 ≤ |φ| + δ) :
    ∃ φ', |φ'| ≤ π / 2 ∧ ∀ Δ, Within δ φ φ' Δ := by
  have hcos : cos δ ≤ sin |φ| := by
    rw [← cos_pi_div_two_sub]
    exact cos_le_cos_of_nonneg_of_le_pi (by linarith) hδπ (by linarith)
  rcases le_total 0 φ with hnorth | hsouth
  · rw [abs_of_nonneg hnorth] at hcos
    refine ⟨π / 2, (abs_of_pos pi_div_two_pos).le, fun Δ => ?_⟩
    rw [Within, cosAngle, sin_pi_div_two, cos_pi_div_two, mul_one, mul_zero, zero_mul, add_zero]
    exact hcos
  · rw [abs_of_nonpos hsouth, sin_neg] at hcos
    refine ⟨-(π / 2), by rw [abs_neg, abs_of_pos pi_div_two_pos], fun Δ => ?_⟩
    rw [Within, cosAngle, sin_neg, cos_neg, sin_pi_div_two, cos_pi_div_two, mul_zero, zero_mul,
      add_zero, mul_neg_one]
    exact hcos

section Tangent

variable (hδ : 0 < δ) (hcap : |φ| + δ < π / 2)
include hδ hcap

theorem sin_lt_cos : sin δ < cos φ := by
  rw [← cos_abs φ, ← sin_pi_div_two_sub]
  exact sin_lt_sin_of_lt_of_le_pi_div_two (by linarith [abs_nonneg φ])
    (by linarith [abs_nonneg φ]) (by linarith)

-- A meridian touches a cap without a pole to the east and one to the west.
theorem within_tangent : ∃ φ', |φ'| ≤ π / 2 ∧ ∀ Δ, |Δ| = arcsin (sin δ / cos φ) →
    Within δ φ φ' Δ := by
  have hlt := sin_lt_cos hδ hcap
  have hsin : 0 < sin δ := sin_pos_of_pos_of_lt_pi hδ (by linarith [abs_nonneg φ])
  have hcos : 0 < cos φ := hsin.trans hlt
  have hcosδ : 0 < cos δ := cos_pos_of_mem_Ioo ⟨by linarith [pi_pos], by linarith [abs_nonneg φ]⟩
  -- both cosines at the tangent point have this root as their numerator
  have hroot : cos δ ^ 2 - sin φ ^ 2 = cos φ ^ 2 - sin δ ^ 2 := by
    linarith [sin_sq_add_cos_sq δ, sin_sq_add_cos_sq φ]
  have hpos : 0 ≤ cos φ ^ 2 - sin δ ^ 2 := sub_nonneg.mpr (pow_le_pow_left₀ hsin.le hlt.le 2)
  have hφ' : cos (arcsin (sin φ / cos δ)) = √(cos φ ^ 2 - sin δ ^ 2) / cos δ := by
    rw [cos_arcsin, ← hroot, div_pow, one_sub_div (pow_ne_zero 2 hcosδ.ne'), sqrt_div' _ (sq_nonneg _),
      sqrt_sq hcosδ.le]
  have hΔ : cos (arcsin (sin δ / cos φ)) = √(cos φ ^ 2 - sin δ ^ 2) / cos φ := by
    rw [cos_arcsin, div_pow, one_sub_div (pow_ne_zero 2 hcos.ne'), sqrt_div' _ (sq_nonneg _),
      sqrt_sq hcos.le]
  have habs : |sin φ / cos δ| ≤ 1 := by
    rw [abs_div, abs_of_pos hcosδ, div_le_one hcosδ]
    exact abs_le_of_sq_le_sq (by linarith) hcosδ.le
  obtain ⟨hlo, hhi⟩ := abs_le.mp habs
  refine ⟨arcsin (sin φ / cos δ),
    abs_le.mpr ⟨neg_pi_div_two_le_arcsin _, arcsin_le_pi_div_two _⟩, fun Δ habsΔ => ?_⟩
  rw [Within, cosAngle, ← cos_abs Δ, habsΔ, hΔ, hφ', sin_arcsin hlo hhi]
  have hsq := mul_self_sqrt hpos
  have heq : sin φ * (sin φ / cos δ) + cos φ * (√(cos φ ^ 2 - sin δ ^ 2) / cos δ) *
      (√(cos φ ^ 2 - sin δ ^ 2) / cos φ) = cos δ := by
    field_simp
    linarith
  exact heq.ge

-- The meridian is further away than it is for a circle in the plane.
theorem div_cos_lt_tangent (hφ : φ ≠ 0) : δ / cos φ < arcsin (sin δ / cos φ) := by
  have hlt := sin_lt_cos hδ hcap
  have hsin : 0 < sin δ := sin_pos_of_pos_of_lt_pi hδ (by linarith [abs_nonneg φ])
  have hcos : 0 < cos φ := hsin.trans hlt
  have hcos1 : cos φ < 1 := by
    rw [← cos_abs φ, ← cos_zero]
    exact cos_lt_cos_of_nonneg_of_le_pi le_rfl (by linarith [pi_pos]) (abs_pos.mpr hφ)
  -- by Jordan's inequality the quotient is an angle below a right one
  have hjordan : 2 / π * δ < sin δ := mul_lt_sin hδ (by linarith [abs_nonneg φ])
  have hright : δ / cos φ < π / 2 := by
    rw [div_lt_iff₀ hcos]
    calc δ = π / 2 * (2 / π * δ) := by field_simp
      _ < π / 2 * cos φ := mul_lt_mul_of_pos_left (hjordan.trans hlt) pi_div_two_pos
  have hquot : 0 < δ / cos φ := div_pos hδ hcos
  have hconcave := strictConcaveOn_sin_Icc.2 (x := δ / cos φ) (y := 0)
    ⟨hquot.le, by linarith⟩ ⟨le_rfl, pi_pos.le⟩ hquot.ne' hcos (sub_pos.mpr hcos1)
    (add_sub_cancel _ _)
  rw [sin_zero, smul_zero, add_zero, add_zero, smul_eq_mul, smul_eq_mul,
    mul_div_cancel₀ _ hcos.ne'] at hconcave
  rw [lt_arcsin_iff_sin_lt ⟨by linarith, hright.le⟩
    ⟨by linarith [div_pos hsin hcos], ((div_lt_one hcos).mpr hlt).le⟩, lt_div_iff₀ hcos, mul_comm]
  exact hconcave

end Tangent

-- How a point is written.
structure OnSphere (φ lam : ℝ) : Prop where
  lat : |φ| ≤ π / 2
  lng : |lam| ≤ π

-- The points that are within `δ` of `(φ, lam)` differ from it by at most `w` in longitude.
def Spans (δ w φ lam : ℝ) : Prop :=
  ∀ φ' lam', OnSphere φ' lam' → Within δ φ φ' (lam' - lam) → |lam' - lam| ≤ w

-- Toward the zero meridian there is room for more than half a turn.
theorem exists_lng {s : ℝ} (hs : 0 ≤ s) (hlam : |lam| ≤ π) (hroom : s ≤ π + |lam|) :
    ∃ lam', |lam'| ≤ π ∧ |lam' - lam| = s := by
  obtain ⟨hlo, hhi⟩ := abs_le.mp hlam
  rcases le_total 0 lam with heast | hwest
  · rw [abs_of_nonneg heast] at hroom
    refine ⟨lam - s, abs_le.mpr ⟨by linarith, by linarith⟩, ?_⟩
    rw [sub_sub_cancel_left, abs_neg, abs_of_nonneg hs]
  · rw [abs_of_nonpos hwest] at hroom
    refine ⟨lam + s, abs_le.mpr ⟨by linarith, by linarith⟩, ?_⟩
    rw [add_sub_cancel_left, abs_of_nonneg hs]

theorem not_spans_of_le {w s : ℝ} (hs : w < s) (hs0 : 0 ≤ s) (hlam : |lam| ≤ π)
    (hroom : s ≤ π + |lam|) (h : ∃ φ', |φ'| ≤ π / 2 ∧ ∀ Δ, |Δ| = s → Within δ φ φ' Δ) :
    ¬Spans δ w φ lam := by
  obtain ⟨φ', hφ', hwithin⟩ := h
  obtain ⟨lam', hlam', hdiff⟩ := exists_lng hs0 hlam hroom
  intro hspans
  have hle := hspans φ' lam' ⟨hφ', hlam'⟩ (hwithin _ hdiff)
  rw [hdiff] at hle
  exact absurd hs (not_lt.mpr hle)

-- On the equator nothing is further away in longitude than it is, unless the shorter way
-- crosses the meridian at `π`.
theorem within_equator_iff (hδ0 : 0 ≤ δ) (hδ : δ < π / 2) :
    (∃ φ', |φ'| ≤ π / 2 ∧ Within δ 0 φ' Δ) ↔ cos δ ≤ cos Δ := by
  have hcosδ : 0 < cos δ := cos_pos_of_mem_Ioo ⟨by linarith [pi_pos], hδ⟩
  constructor
  · rintro ⟨φ', hφ', hwithin⟩
    have hcos := cos_nonneg_of_abs_le hφ'
    rw [Within, cosAngle, sin_zero, cos_zero, zero_mul, zero_add, one_mul] at hwithin
    have hpos : 0 ≤ cos Δ := by
      by_contra hneg
      have hle := mul_nonpos_of_nonneg_of_nonpos hcos (not_le.mp hneg).le
      linarith
    exact hwithin.trans (mul_le_of_le_one_left hpos (cos_le_one φ'))
  · intro h
    refine ⟨0, abs_zero.trans_le pi_div_two_pos.le, ?_⟩
    rw [Within, cosAngle, sin_zero, cos_zero, zero_mul, zero_add, one_mul, one_mul]
    exact h

theorem spans_equator_iff (hδ0 : 0 < δ) (hδ : δ < π / 2) (hlam : |lam| ≤ π) :
    Spans δ δ 0 lam ↔ |lam| + δ < π := by
  constructor
  · intro hspans
    by_contra hcross
    refine not_spans_of_le (s := 2 * π - δ) (by linarith) (by linarith) hlam (by linarith) ?_
      hspans
    refine ⟨0, abs_zero.trans_le pi_div_two_pos.le, fun Δ hΔ => ?_⟩
    rw [Within, cosAngle, sin_zero, cos_zero, zero_mul, zero_add, one_mul, one_mul, ← cos_abs Δ,
      hΔ, cos_two_pi_sub]
  · rintro hnear φ' lam' ⟨hφ', hlam'⟩ hwithin
    have hcos := (within_equator_iff hδ0.le hδ).mp ⟨φ', hφ', hwithin⟩
    have hfar : |lam' - lam| ≤ |lam'| + |lam| := abs_sub lam' lam
    rcases le_total |lam' - lam| π with hle | hge
    · exact abs_le_of_cos_le hδ0.le hle hcos
    · have hturn : abs (2 * π - |lam' - lam|) ≤ δ := by
        refine abs_le_of_cos_le hδ0.le (abs_le.mpr ⟨by linarith, by linarith⟩) ?_
        rw [cos_two_pi_sub, cos_abs]
        exact hcos
      have hback := le_of_abs_le hturn
      linarith

-- When a span of the angle over the cosine of the latitude is enough.
theorem spans_iff (hδ0 : 0 < δ) (hδ : δ < π / 2) (hpoint : OnSphere φ lam) (hcos : 0 < cos φ) :
    Spans δ (δ / cos φ) φ lam ↔
      cos φ * (π + |lam|) ≤ δ ∨ φ = 0 ∧ |lam| + δ < π := by
  obtain ⟨hφ, hlam⟩ := hpoint
  have hall : π + |lam| ≤ δ / cos φ ↔ cos φ * (π + |lam|) ≤ δ := by
    rw [le_div_iff₀ hcos, mul_comm]
  rw [← hall]
  by_cases hspan : π + |lam| ≤ δ / cos φ
  · refine iff_of_true (fun φ' lam' hpoint' _ => ?_) (Or.inl hspan)
    calc |lam' - lam| ≤ |lam'| + |lam| := abs_sub lam' lam
      _ ≤ δ / cos φ := by linarith [hpoint'.lng]
  · rw [or_iff_right hspan]
    by_cases hφ0 : φ = 0
    · subst hφ0
      rw [cos_zero, div_one, spans_equator_iff hδ0 hδ hlam]
      exact (and_iff_right rfl).symm
    · refine iff_of_false ?_ fun h => hφ0 h.1
      by_cases hcap : |φ| + δ < π / 2
      · have harc := arcsin_le_pi_div_two (sin δ / cos φ)
        have hlt := div_cos_lt_tangent hδ0 hcap hφ0
        refine not_spans_of_le hlt ((div_pos hδ0 hcos).le.trans hlt.le) hlam ?_
          (within_tangent hδ0 hcap)
        linarith [pi_pos, abs_nonneg lam]
      · obtain ⟨φ', hφ', hpole⟩ := within_pole (by linarith [pi_pos]) hφ (not_lt.mp hcap)
        exact not_spans_of_le (not_le.mp hspan) (by linarith [pi_pos, abs_nonneg lam]) hlam le_rfl
          ⟨φ', hφ', fun Δ _ => hpole Δ⟩

end Sphere
