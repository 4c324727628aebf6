import SideQuest.Model.Business
import SideQuest.Model.Nearby
import SideQuest.Model.PublicStats

-- `MapService.getPinsInBounds`: the waypoints and the businesses in the viewport of a map.

namespace SideQuest

-- A location with the columns of its quest and of its quest's category.
structure MapLocation where
  id : Id
  latitude : ℚ
  longitude : ℚ
  questId : Id
  title : String
  status : QuestStatus
  difficulty : QuestDifficulty
  imageUrl : Option String := none
  categorySlug : Option String := none
  -- of a category
  colorHex : Option String := none
  deriving DecidableEq

structure MapDb where
  locations : Table MapLocation.id
  businesses : Table Business.id

inductive MapPinKind where
  | QUEST | BUSINESS
  deriving DecidableEq

structure MapPinDto where
  id : Id
  kind : MapPinKind
  latitude : ℚ
  longitude : ℚ
  title : String
  refId : Id
  difficulty : Option QuestDifficulty := none
  imageUrl : Option String := none
  categorySlug : Option String := none
  colorHex : Option String := none
  distanceM : Option ℤ := none
  deriving DecidableEq

structure MapBoundsQueryDto where
  south : Option ℚ := none
  north : Option ℚ := none
  west : Option ℚ := none
  east : Option ℚ := none
  limit : Option ℕ := none
  categorySlug : Option String := none
  difficulty : Option QuestDifficulty := none
  kinds : Option String := none

structure Bounds where
  south : ℚ
  north : ℚ
  west : ℚ
  east : ℚ

def Bounds.contains (b : Bounds) (latitude longitude : ℚ) : Bool :=
  (b.south ≤ latitude ∧ latitude ≤ b.north) ∧ (b.west ≤ longitude ∧ longitude ≤ b.east)

-- Neither query has an `orderBy`.
structure MapOrders where
  locations : QueryOrder (QuestsService.unordered (α := MapLocation))
  businesses : QueryOrder (QuestsService.unordered (α := Business))

namespace MapService

open PublicStats (Texts)

variable (host : Host) (texts : Texts) (orders : MapOrders) (db : MapDb)

def ALL_KINDS : List MapPinKind := [.QUEST, .BUSINESS]

def kindOf (name : String) : Option MapPinKind :=
  if name = "QUEST" then some .QUEST else if name = "BUSINESS" then some .BUSINESS else none

def parseKinds (raw : Option String) : List MapPinKind :=
  match truthy raw with
  | none => ALL_KINDS
  | some raw =>
      let out := (raw.toList.splitOn ',').filterMap fun piece =>
        kindOf (texts.toUpperCase (texts.trim (String.ofList piece)))
      if out = [] then ALL_KINDS else out

def boundsOf (query : MapBoundsQueryDto) : Except ApiError Bounds :=
  match query.south, query.north, query.west, query.east with
  | some south, some north, some west, some east =>
      if south ≥ north ∨ west ≥ east then
        .error (.badRequest "Invalid bounds: south<north and west<east required")
      else .ok ⟨south, north, west, east⟩
  | _, _, _, _ => .error (.badRequest "south, north, west, east are all required")

-- `questWhere` and the bounds
def wantsLocation (query : MapBoundsQueryDto) (bounds : Bounds) (row : MapLocation) : Bool :=
  bounds.contains row.latitude row.longitude && row.status = .PUBLISHED &&
    query.difficulty.all (fun d => row.difficulty = d) &&
    (truthy query.categorySlug).all fun slug => row.categorySlug = some slug

def wantsBusiness (bounds : Bounds) (row : Business) : Bool :=
  row.status = .VERIFIED &&
    (row.latitude.any fun lat => row.longitude.any fun lng => bounds.contains lat lng)

def buildQuestPin (row : MapLocation) : MapPinDto where
  id := row.id
  kind := .QUEST
  latitude := row.latitude
  longitude := row.longitude
  title := row.title
  refId := row.questId
  difficulty := some row.difficulty
  imageUrl := row.imageUrl
  categorySlug := row.categorySlug
  colorHex := row.categorySlug.bind fun _ => row.colorHex

def buildBusinessPin (row : Business) : Option MapPinDto :=
  match row.latitude, row.longitude with
  | some latitude, some longitude =>
      some { id := row.id, kind := .BUSINESS, latitude, longitude, title := row.name, refId := row.id,
             imageUrl := row.logoUrl }
  | _, _ => none

def centerOf (bounds : Bounds) : Coordinates :=
  ⟨(bounds.south + bounds.north) / 2, (bounds.west + bounds.east) / 2⟩

def attachDistance (bounds : Bounds) (pin : MapPinDto) : MapPinDto :=
  { pin with
    distanceM := some (mathRound
      (host.haversineMeters (centerOf bounds) ⟨pin.latitude, pin.longitude⟩)) }

def wantQuests (query : MapBoundsQueryDto) : Bool := .QUEST ∈ parseKinds texts query.kinds

def wantBusinesses (query : MapBoundsQueryDto) : Bool :=
  .BUSINESS ∈ parseKinds texts query.kinds && truthy query.categorySlug = none &&
    query.difficulty = none

-- The rows that match, without the limit.
def matchingLocations (query : MapBoundsQueryDto) (bounds : Bounds) : List MapLocation :=
  if wantQuests texts query then db.locations.rows.filter (wantsLocation query bounds) else []

def matchingBusinesses (query : MapBoundsQueryDto) (bounds : Bounds) : List Business :=
  if wantBusinesses texts query then db.businesses.rows.filter (wantsBusiness bounds) else []

def getPinsInBounds (query : MapBoundsQueryDto) : Except ApiError (List MapPinDto) := do
  let bounds ← boundsOf query
  let limit := query.limit.getD 200
  let questRows := findMany orders.locations (matchingLocations texts db query bounds) 0 limit
  let businessRows := findMany orders.businesses (matchingBusinesses texts db query bounds) 0 limit
  return (questRows.map buildQuestPin ++ businessRows.filterMap buildBusinessPin).map
    (attachDistance host bounds)

end MapService

end SideQuest
