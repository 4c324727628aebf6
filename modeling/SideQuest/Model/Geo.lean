import SideQuest.Model.Nearby
import Mathlib.Analysis.SpecialFunctions.Trigonometric.Inverse

-- `GeoService` in exact real arithmetic.

namespace SideQuest

open Real

namespace GeoService

def EARTH_RADIUS_METERS : ℝ := 6371000

noncomputable def toRadians (deg : ℝ) : ℝ := deg * π / 180

-- `* (180 / Math.PI)`
noncomputable def toDegrees (rad : ℝ) : ℝ := rad * (180 / π)

noncomputable def exactHaversineMeters (a b : Coordinates ℝ) : ℝ :=
  let dLat := toRadians (b.latitude - a.latitude)
  let dLng := toRadians (b.longitude - a.longitude)
  let lat1 := toRadians a.latitude
  let lat2 := toRadians b.latitude
  let sinDLat := sin (dLat / 2)
  let sinDLng := sin (dLng / 2)
  let h := sinDLat * sinDLat + cos lat1 * cos lat2 * sinDLng * sinDLng
  2 * EARTH_RADIUS_METERS * arcsin (min 1 √h)

-- At a pole a positive radius is divided by zero, and the box goes all around.
noncomputable def exactBoundingBox (center : Coordinates ℝ) (radiusMeters : ℝ) : BoundingBox ℝ :=
  let latDelta := toDegrees (radiusMeters / EARTH_RADIUS_METERS)
  let parallel := EARTH_RADIUS_METERS * cos (toRadians center.latitude)
  let lngDelta := toDegrees (radiusMeters / parallel)
  { minLat := center.latitude - latDelta
    maxLat := center.latitude + latDelta
    minLng := if parallel = 0 then ⊥ else ((center.longitude - lngDelta : ℝ) : WithTop ℝ)
    maxLng := if parallel = 0 then ⊤ else ((center.longitude + lngDelta : ℝ) : WithTop ℝ) }

noncomputable def exact : GeoService ℝ where
  haversineMeters := exactHaversineMeters
  boundingBox := exactBoundingBox

end GeoService

end SideQuest
