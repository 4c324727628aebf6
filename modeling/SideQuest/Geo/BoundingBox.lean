import SideQuest.Model.Geo
import SideQuest.Quests.Nearby
import SideQuest.Lib.Sphere

-- The bounding box against the distance that it stands for.

namespace SideQuest

open Real Sphere

namespace GeoService

section Radians

variable {x y : ℝ}

theorem toRadians_sub (x y : ℝ) : toRadians (x - y) = toRadians x - toRadians y := by
  simp only [toRadians]
  ring

theorem toRadians_zero : toRadians 0 = 0 := by
  rw [toRadians, zero_mul, zero_div]

theorem abs_toRadians_le_iff : |toRadians x| ≤ toRadians y ↔ |x| ≤ y := by
  rw [toRadians, toRadians, abs_div, abs_mul, abs_of_pos pi_pos, abs_of_pos (by norm_num : (0 : ℝ) < 180),
    div_le_div_iff_of_pos_right (by norm_num), mul_le_mul_iff_left₀ pi_pos]

theorem toRadians_90 : toRadians 90 = π / 2 := by
  rw [toRadians]
  ring

theorem toRadians_180 : toRadians 180 = π := by
  rw [toRadians]
  ring

theorem toRadians_toDegrees (x : ℝ) : toRadians (toDegrees x) = x := by
  rw [toRadians, toDegrees]
  field_simp

end Radians

-- A latitude and a longitude that a request or a waypoint may have.
structure Coordinates.Valid (c : Coordinates ℝ) : Prop where
  latitude : c.latitude ∈ Set.Icc (-90) 90
  longitude : c.longitude ∈ Set.Icc (-180) 180

-- The angle that a way over the surface takes.
noncomputable def angleOf (meters : ℝ) : ℝ := meters / EARTH_RADIUS_METERS

section Box

variable {center point : Coordinates ℝ} {radius : ℝ}

theorem Coordinates.Valid.onSphere (h : center.Valid) :
    OnSphere (toRadians center.latitude) (toRadians center.longitude) where
  lat := by
    rw [← toRadians_90, abs_toRadians_le_iff]
    exact abs_le.mpr h.latitude
  lng := by
    rw [← toRadians_180, abs_toRadians_le_iff]
    exact abs_le.mpr h.longitude

theorem earthRadius_pos : 0 < EARTH_RADIUS_METERS := by norm_num [EARTH_RADIUS_METERS]

theorem angleOf_pos (h : 0 < radius) : 0 < angleOf radius := div_pos h earthRadius_pos

theorem angleOf_lt (h : radius ≤ 100000) : angleOf radius < π / 2 := by
  have hlt : angleOf radius < 1 := by
    rw [angleOf, EARTH_RADIUS_METERS, div_lt_one (by norm_num)]
    linarith
  linarith [two_le_pi]

theorem exactHaversineMeters_le_iff (h0 : 0 < radius) (h1 : radius ≤ 100000) :
    exactHaversineMeters center point ≤ radius ↔
      Within (angleOf radius) (toRadians center.latitude) (toRadians point.latitude)
        (toRadians point.longitude - toRadians center.longitude) := by
  have hpos := angleOf_pos h0
  have hlt := angleOf_lt h1
  rw [← arcsin_haversine_le_iff hpos.le (by linarith [pi_pos]), ← toRadians_sub, ← toRadians_sub]
  have hhalf : angleOf radius / 2 = radius / (2 * EARTH_RADIUS_METERS) := by
    rw [angleOf, div_div, mul_comm]
  rw [hhalf, le_div_iff₀' (mul_pos two_pos earthRadius_pos)]
  simp only [exactHaversineMeters, sq, mul_assoc]

theorem abs_sub_le_iff_degrees {x y w : ℝ} :
    x - toDegrees w ≤ y ∧ y ≤ x + toDegrees w ↔ |toRadians y - toRadians x| ≤ w := by
  rw [← toRadians_sub, ← toRadians_toDegrees w, abs_toRadians_le_iff, toRadians_toDegrees,
    abs_le]
  constructor <;> rintro ⟨h, h'⟩ <;> constructor <;> linarith

theorem contains_exactBoundingBox_iff :
    (exactBoundingBox center radius).contains point = true ↔
      |toRadians point.latitude - toRadians center.latitude| ≤ angleOf radius ∧
        (cos (toRadians center.latitude) = 0 ∨
          |toRadians point.longitude - toRadians center.longitude| ≤
            angleOf radius / cos (toRadians center.latitude)) := by
  have hparallel : EARTH_RADIUS_METERS * cos (toRadians center.latitude) = 0 ↔
      cos (toRadians center.latitude) = 0 := by
    rw [mul_eq_zero, or_iff_right earthRadius_pos.ne']
  have hlng : radius / (EARTH_RADIUS_METERS * cos (toRadians center.latitude)) =
      angleOf radius / cos (toRadians center.latitude) := by
    rw [angleOf, div_div]
  rw [← abs_sub_le_iff_degrees, ← abs_sub_le_iff_degrees]
  simp only [BoundingBox.contains, exactBoundingBox, Bool.and_eq_true, decide_eq_true_eq, hlng,
    hparallel, and_assoc]
  refine and_congr_right fun _ => and_congr_right fun _ => ?_
  by_cases hpole : cos (toRadians center.latitude) = 0
  · simp only [hpole, if_true, bot_le, le_top, and_self, true_or]
  · simp only [hpole, if_false, false_or, WithBot.coe_le_coe, WithTop.coe_le_coe, toDegrees]

-- The box hides no point that the distance accepts.
def BoxSound (center : Coordinates ℝ) (radius : ℝ) : Prop :=
  ∀ point : Coordinates ℝ, point.Valid → exact.haversineMeters center point ≤ radius →
    (exact.boundingBox center radius).contains point = true

-- In latitude the box is always wide enough, and at a pole in longitude, too.
theorem boxSound_iff_spans (hvalid : center.Valid) (h0 : 0 < radius) (h1 : radius ≤ 100000) :
    BoxSound center radius ↔ cos (toRadians center.latitude) = 0 ∨
      Spans (angleOf radius) (angleOf radius / cos (toRadians center.latitude))
        (toRadians center.latitude) (toRadians center.longitude) := by
  have haccept (point : Coordinates ℝ) : exactHaversineMeters center point ≤ radius ↔
      Within (angleOf radius) (toRadians center.latitude) (toRadians point.latitude)
        (toRadians point.longitude - toRadians center.longitude) :=
    exactHaversineMeters_le_iff h0 h1
  constructor
  · intro hsound
    refine or_iff_not_imp_left.mpr fun hpole φ' lam' hpoint hwithin => ?_
    have hvalid' : Coordinates.Valid ⟨toDegrees φ', toDegrees lam'⟩ := by
      refine ⟨abs_le.mp ?_, abs_le.mp ?_⟩
      · rw [← abs_toRadians_le_iff, toRadians_toDegrees, toRadians_90]
        exact hpoint.lat
      · rw [← abs_toRadians_le_iff, toRadians_toDegrees, toRadians_180]
        exact hpoint.lng
    have hin := hsound ⟨toDegrees φ', toDegrees lam'⟩ hvalid' ((haccept _).mpr (by
      simpa only [toRadians_toDegrees] using hwithin))
    have hlng := (contains_exactBoundingBox_iff.mp hin).2.resolve_left hpole
    simpa only [toRadians_toDegrees] using hlng
  · intro hspans point hpoint hnear
    have hwithin := (haccept point).mp hnear
    refine contains_exactBoundingBox_iff.mpr ⟨?_, ?_⟩
    · exact hwithin.abs_lat_le (angleOf_pos h0).le hvalid.onSphere.lat hpoint.onSphere.lat
    · exact hspans.imp_right fun h => h _ _ hpoint.onSphere hwithin

-- Where the box is sound: so near to a pole that the radius is longer than half the
-- parallel and the way from the center's meridian to the zero meridian, or on the equator,
-- as long as the circle does not cross the meridian at 180 degrees.
theorem boundingBox_sound_iff (center : Coordinates ℝ) (radius : ℝ) (hvalid : center.Valid)
    (hradius : radius ∈ Set.Icc 1 100000) :
    BoxSound center radius ↔
      EARTH_RADIUS_METERS * cos (toRadians center.latitude) *
          (π + |toRadians center.longitude|) ≤ radius ∨
        center.latitude = 0 ∧
          EARTH_RADIUS_METERS * |toRadians center.longitude| + radius < EARTH_RADIUS_METERS * π := by
  have h0 : 0 < radius := by linarith [hradius.1]
  have hround : EARTH_RADIUS_METERS * cos (toRadians center.latitude) *
      (π + |toRadians center.longitude|) ≤ radius ↔
        cos (toRadians center.latitude) * (π + |toRadians center.longitude|) ≤ angleOf radius := by
    rw [angleOf, le_div_iff₀' earthRadius_pos, mul_assoc]
  have hcross : EARTH_RADIUS_METERS * |toRadians center.longitude| + radius <
      EARTH_RADIUS_METERS * π ↔ |toRadians center.longitude| + angleOf radius < π := by
    have hsum : EARTH_RADIUS_METERS * |toRadians center.longitude| + radius =
        EARTH_RADIUS_METERS * (|toRadians center.longitude| + angleOf radius) := by
      rw [mul_add, angleOf, mul_div_cancel₀ _ earthRadius_pos.ne']
    rw [hsum, mul_lt_mul_iff_right₀ earthRadius_pos]
  have hequator : toRadians center.latitude = 0 ↔ center.latitude = 0 := by
    rw [toRadians, div_eq_zero_iff, mul_eq_zero, or_iff_left (by norm_num), or_iff_left pi_ne_zero]
  rw [boxSound_iff_spans hvalid h0 hradius.2, hround, hcross, ← hequator]
  rcases (cos_nonneg_of_abs_le hvalid.onSphere.lat).eq_or_lt with hpole | hcos
  · refine iff_of_true (Or.inl hpole.symm) (Or.inl ?_)
    rw [← hpole, zero_mul]
    exact (angleOf_pos h0).le
  · rw [or_iff_right hcos.ne']
    exact spans_iff (angleOf_pos h0) (angleOf_lt hradius.2) hvalid.onSphere hcos

end Box

-- In the Gulf of Guinea.
theorem boxSound_origin : BoxSound ⟨0, 0⟩ 5000 := by
  have hvalid : Coordinates.Valid ⟨0, 0⟩ := by constructor <;> constructor <;> norm_num
  refine (boundingBox_sound_iff ⟨0, 0⟩ 5000 hvalid (by constructor <;> norm_num)).mpr
    (Or.inr ⟨rfl, ?_⟩)
  rw [toRadians_zero, abs_zero, mul_zero, zero_add, EARTH_RADIUS_METERS]
  linarith [two_le_pi]

-- The equator at 180 degrees west is where it is at 180 degrees east, and not in the box.
theorem not_boxSound_antimeridian :
    Coordinates.Valid ⟨0, 180⟩ ∧ ¬BoxSound ⟨0, 180⟩ 5000 := by
  refine ⟨by constructor <;> constructor <;> norm_num, fun hsound => ?_⟩
  have hvalid : Coordinates.Valid ⟨0, -180⟩ := by constructor <;> constructor <;> norm_num
  have hwest : toRadians (-180) = -π := by
    rw [toRadians]
    ring
  have hturn : -π - π = -(2 * π) := by ring
  have hnear : exact.haversineMeters ⟨0, 180⟩ ⟨0, -180⟩ ≤ 5000 := by
    refine (exactHaversineMeters_le_iff (by norm_num) (by norm_num)).mpr ?_
    simp only [Within, cosAngle, toRadians_zero, toRadians_180, hwest, hturn, cos_neg, cos_two_pi,
      sin_zero, cos_zero, mul_zero, zero_add, mul_one]
    exact cos_le_one _
  have hin := contains_exactBoundingBox_iff.mp (hsound ⟨0, -180⟩ hvalid hnear)
  simp only [toRadians_zero, cos_zero, one_ne_zero, false_or, div_one, toRadians_180, hwest, hturn,
    abs_neg, abs_of_pos two_pi_pos] at hin
  have hlt : angleOf 5000 < π / 2 := angleOf_lt (by norm_num)
  linarith [hin.2, pi_pos]

end GeoService

namespace QuestsService

open GeoService

-- Over a sound box a search that takes all candidates returns all quests of the filter that
-- are within the radius, and no others.
theorem listNearby_exact {center : GeoService.Coordinates ℝ} {quests : List (LocatedQuest ℝ)}
    {query : ListQuestsNearbyDto ℝ} (hlocations : ∀ q ∈ quests, ∀ loc ∈ q.locations, loc.Valid)
    (hsound : BoxSound center (query.radiusM.getD 5000 : ℕ))
    (hfew : (candidatesOf exact center quests query).length ≤ 200)
    (db : QueryOrder (unordered (α := LocatedQuest ℝ))) :
    ∃ result, listNearby exact quests
      { query with lat := some center.latitude, lng := some center.longitude } db = .ok result ∧
      ∀ q, (∃ dto ∈ result, dto.quest = q) ↔ q ∈ quests ∧ nearbyWhere query q = true ∧
        ∃ loc ∈ q.locations, exact.haversineMeters center loc ≤ (query.radiusM.getD 5000 : ℕ) := by
  refine ⟨_, rfl, fun q => ?_⟩
  have hperm := (db.answers (candidatesOf exact center quests query)).perm
  have hall : (db.order (candidatesOf exact center quests query)).take 200 =
      db.order (candidatesOf exact center quests query) :=
    List.take_of_length_le (hperm.length_eq.trans_le hfew)
  have htaken : q ∈ (db.order (candidatesOf exact center quests query)).take 200 ↔
      q ∈ quests ∧ isCandidate query (exact.boundingBox center (query.radiusM.getD 5000 : ℕ)) q := by
    rw [hall, hperm.mem_iff, candidatesOf, List.mem_filter]
  refine (exists_dto_iff.trans (and_congr htaken distance_le_iff)).trans ?_
  constructor
  · rintro ⟨⟨hq, hcandidate⟩, hnear⟩
    exact ⟨hq, (Bool.and_eq_true_iff.mp hcandidate).1, hnear⟩
  · rintro ⟨hq, hwhere, loc, hloc, hnear⟩
    have hin := hsound loc (hlocations q hq loc hloc) hnear
    have hany : q.locations.any
        (exact.boundingBox center (query.radiusM.getD 5000 : ℕ)).contains = true :=
      List.any_eq_true.mpr ⟨loc, hloc, hin⟩
    exact ⟨⟨hq, Bool.and_eq_true_iff.mpr ⟨hwhere, hany⟩⟩, loc, hloc, hnear⟩

end QuestsService

end SideQuest
