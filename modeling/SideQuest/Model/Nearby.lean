import SideQuest.Model.Listings

-- `GeoService`, and the quests near a place. The numbers are a parameter: rationals run,
-- and over the reals the trigonometry of the service is exact.

namespace SideQuest

namespace GeoService

structure Coordinates (K : Type) where
  latitude : K
  longitude : K
  deriving DecidableEq

-- The division by a cosine of zero gives `Infinity`.
structure BoundingBox (K : Type) where
  minLat : K
  maxLat : K
  minLng : WithBot (WithTop K)
  maxLng : WithBot (WithTop K)

-- The tests of a `where`: `gte` and `lte` on both columns.
def BoundingBox.contains {K : Type} [LinearOrder K] (box : BoundingBox K) (c : Coordinates K) :
    Bool :=
  box.minLat ≤ c.latitude && c.latitude ≤ box.maxLat &&
    box.minLng ≤ ((c.longitude : WithTop K) : WithBot (WithTop K)) &&
    ((c.longitude : WithTop K) : WithBot (WithTop K)) ≤ box.maxLng

end GeoService

structure GeoService (K : Type) where
  haversineMeters : GeoService.Coordinates K → GeoService.Coordinates K → K
  boundingBox : GeoService.Coordinates K → K → GeoService.BoundingBox K

namespace QuestsService

structure LocatedQuest (K : Type) extends ListedQuest where
  locations : List (GeoService.Coordinates K)

structure ListQuestsNearbyDto (K : Type) where
  lat : Option K := none
  lng : Option K := none
  radiusM : Option ℕ := none
  difficulty : Option QuestDifficulty := none
  categorySlug : Option String := none

-- The distances are those that the response adds to the quest.
structure NearbyQuestDto (K : Type) where
  quest : LocatedQuest K
  locationsDistanceM : List ℤ
  distanceM : ℤ

-- No `orderBy`: any order will do.
def unordered {α : Type} : OrderBy α := ⟨Unit, inferInstance, fun _ => ()⟩

section Nearby

variable {K : Type} [LinearOrder K]

def nearbyWhere (query : ListQuestsNearbyDto K) (q : LocatedQuest K) : Bool :=
  q.status = .PUBLISHED &&
    query.difficulty.all (fun difficulty => q.difficulty = difficulty) &&
    (truthy query.categorySlug).all (fun slug => q.categorySlug = some slug)

-- The `where` of `findWithinBoundingBox`.
def isCandidate (query : ListQuestsNearbyDto K) (box : GeoService.BoundingBox K)
    (q : LocatedQuest K) : Bool :=
  nearbyWhere query q && q.locations.any box.contains

def findWithinBoundingBox (db : QueryOrder (unordered (α := LocatedQuest K)))
    (quests : List (LocatedQuest K)) (query : ListQuestsNearbyDto K)
    (box : GeoService.BoundingBox K) (limit : Option ℕ) : List (LocatedQuest K) :=
  findMany db (quests.filter (isCandidate query box)) 0 (limit.getD 100)

variable (geo : GeoService K) (center : GeoService.Coordinates K)

-- From `Infinity` down.
def nearest (locations : List (GeoService.Coordinates K)) : WithTop K :=
  locations.foldl (fun nearest loc =>
    let d := geo.haversineMeters center loc
    if d < nearest then d else nearest) ⊤

-- The loop over the candidates.
def refine (radius : K) (candidates : List (LocatedQuest K)) : List (LocatedQuest K × K) :=
  candidates.filterMap fun quest =>
    match nearest geo center quest.locations with
    | none => none
    | some d => if d ≤ radius then some (quest, d) else none

end Nearby

section ListNearby

variable {K : Type} [Field K] [LinearOrder K] [FloorRing K]

-- `round` rounds a half up, like `Math.round`.
def toNearbyDto (geo : GeoService K) (center : GeoService.Coordinates K)
    (found : LocatedQuest K × K) : NearbyQuestDto K where
  quest := found.1
  locationsDistanceM := found.1.locations.map fun loc =>
    round (geo.haversineMeters center loc)
  distanceM := round found.2

def listNearby (geo : GeoService K) (quests : List (LocatedQuest K)) (query : ListQuestsNearbyDto K)
    (db : QueryOrder (unordered (α := LocatedQuest K))) :
    Except ApiError (List (NearbyQuestDto K)) :=
  match query.lat, query.lng with
  | some lat, some lng =>
      let radius : K := (query.radiusM.getD 5000 : ℕ)
      let center : GeoService.Coordinates K := ⟨lat, lng⟩
      let candidates :=
        findWithinBoundingBox db quests query (geo.boundingBox center radius) (some 200)
      let refined := (refine geo center radius candidates).mergeSort fun a b => a.2 ≤ b.2
      .ok (refined.map (toNearbyDto geo center))
  | _, _ => .error (.badRequest "lat and lng are required")

end ListNearby

end QuestsService

end SideQuest
