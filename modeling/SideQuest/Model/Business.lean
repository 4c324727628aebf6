import SideQuest.Lib.Double
import SideQuest.Model.Leaderboard
import SideQuest.Model.Ratings
import Mathlib.Data.List.Dedup
import Mathlib.Order.WithBot

-- The partner portal: `BusinessPortalRepository` and `BusinessesService` as far as they
-- report to the owner of a business.

namespace SideQuest

inductive BusinessStatus where
  | PENDING_VERIFICATION | VERIFIED | REJECTED | SUSPENDED
  deriving DecidableEq

structure Business where
  id : Id
  slug : String
  name : String
  status : BusinessStatus := .PENDING_VERIFICATION
  latitude : Option ℚ := none
  longitude : Option ℚ := none
  logoUrl : Option String := none
  ownerId : Option Id := none
  createdAt : Time
  deriving DecidableEq

structure BusinessVisit where
  id : Id
  businessId : Id
  questId : Option Id := none
  userId : Option Id := none
  createdAt : Time
  deriving DecidableEq

-- The columns of a quest that the portal looks at.
structure PartnerQuest where
  id : Id
  title : String
  businessId : Option Id := none
  ratingAvg : Option ℚ := none
  ratingCount : ℕ := 0
  deriving DecidableEq

structure DatedRating extends QuestRating where
  createdAt : Time
  deriving DecidableEq

structure PortalDb where
  businesses : Table Business.id
  visits : Table BusinessVisit.id
  quests : Table PartnerQuest.id
  completions : Table QuestCompletion.key
  ratings : Table fun r : DatedRating => r.key

inductive BusinessMetricsPeriod where
  | MONTH | SEVEN_D | THIRTY_D | NINETY_D
  deriving DecidableEq

-- `[start, endExclusive)`
structure DateRange where
  start : Time
  endExclusive : Time
  deriving DecidableEq

def DateRange.covers (r : DateRange) (t : Time) : Bool := r.start ≤ t ∧ t < r.endExclusive

structure Windows where
  current : DateRange
  previous : DateRange
  deriving DecidableEq

def startOfUtcMonth (d : Time) : Time :=
  (LeaderboardService.utcDays d - (LeaderboardService.getUTCDate d - 1)) * LeaderboardService.msPerDay

def BusinessMetricsPeriod.days : BusinessMetricsPeriod → ℤ
  | .SEVEN_D => 7
  | .THIRTY_D => 30
  | _ => 90

def currentAndPreviousWindow (period : BusinessMetricsPeriod) (now : Time) : Windows :=
  if period = .MONTH then
    let monthStart := startOfUtcMonth now
    let lengthMs := max 0 (now - monthStart)
    { current := ⟨monthStart, now⟩, previous := ⟨monthStart - lengthMs, monthStart⟩ }
  else
    let lenMs := period.days * LeaderboardService.msPerDay
    let curStart := now - lenMs
    { current := ⟨curStart, now⟩, previous := ⟨curStart - lenMs, curStart⟩ }

-- `Math.round(x * 100) / 100` in doubles, of a number that comes from the database.
def round2 (x : ℚ) : ℚ := Double.round (mathRound (Double.round (Double.round x * 100)) / 100)

-- The double next to 1.005 is smaller.
example : round2 (1005 / 1000) = 1 := by decide +kernel

namespace BusinessPortalRepository

variable (db : PortalDb) (businessId : Id) (range : DateRange)

def countVisits : ℕ :=
  db.visits.count fun v => v.businessId = businessId ∧ range.covers v.createdAt

-- A completion that falls into the range.
def completedIn (c : QuestCompletion) : Bool := c.status = .COMPLETED ∧ c.completedAt.any range.covers

-- `INNER JOIN "Quest" q ON …` `WHERE q."businessId" = …`
def ofBusiness (questId : Id) : Bool :=
  (db.quests.find? questId).any fun q => q.businessId = some businessId

def countQuestCompletions : ℕ :=
  db.completions.count fun c => completedIn range c ∧ ofBusiness db businessId c.questId

def scoresIn : List ℤ :=
  (db.ratings.rows.filter fun r => ofBusiness db businessId r.questId ∧ range.covers r.createdAt).map
    fun r => r.score

-- `toFiniteNumber` takes no average for 0.
def averageRatingInPeriod : ℚ :=
  round2 ((Ratings.average (scoresIn db businessId range)).getD 0)

-- The users of the visits, one entry for each visit.
def visitors : List Id :=
  (db.visits.rows.filter fun v => v.businessId = businessId ∧ range.covers v.createdAt).filterMap
    BusinessVisit.userId

def repeatVisitorPercent : ℚ :=
  let visits := visitors db businessId range
  let repeatUsers := visits.dedup.countP fun u => 1 < visits.count u
  let distinctUsers := visits.dedup.length
  round2 (if distinctUsers = 0 then 0 else (repeatUsers : ℚ) / distinctUsers * 100)

structure TopQuestSqlRow where
  id : Id
  title : String
  visits : ℕ
  completions : ℕ
  rating : Option ℚ
  ratingCount : ℕ
  deriving DecidableEq

def topQuestRow (q : PartnerQuest) : TopQuestSqlRow where
  id := q.id
  title := q.title
  visits := db.visits.count fun v =>
    v.questId = some q.id ∧ v.businessId = businessId ∧ range.covers v.createdAt
  completions := db.completions.count fun c => c.questId = q.id ∧ completedIn range c
  rating := q.ratingAvg
  ratingCount := q.ratingCount

-- `ORDER BY visits DESC, completions DESC, q.title ASC`, with the order of the texts in the
-- database
def topQuestsOrderBy (texts : OrderBy String) : OrderBy TopQuestSqlRow :=
  ⟨ℕᵒᵈ ×ₗ ℕᵒᵈ ×ₗ texts.κ, inferInstance,
    fun r => toLex (.toDual r.visits, toLex (.toDual r.completions, texts.key r.title))⟩

def listTopQuests {texts : OrderBy String} (order : QueryOrder (topQuestsOrderBy texts))
    (limit : ℕ) : List TopQuestSqlRow :=
  let quests := db.quests.rows.filter fun q => q.businessId = some businessId
  findMany order (quests.map (topQuestRow db businessId range)) 0 limit

end BusinessPortalRepository

namespace BusinessesService

open BusinessPortalRepository

structure MetricWithDelta where
  value : ℚ
  delta : ℚ
  deriving DecidableEq

structure BusinessMetricsDto where
  period : BusinessMetricsPeriod
  monthlyVisits : MetricWithDelta
  questCompletions : MetricWithDelta
  avgRating : MetricWithDelta
  repeatVisitors : MetricWithDelta
  deriving DecidableEq

structure BusinessTopQuestDto where
  id : Id
  title : String
  visits : ℕ
  completions : ℕ
  conversion : ℚ
  rating : Option ℚ
  ratingCount : ℕ
  deriving DecidableEq

-- In doubles.
def deltaPct (cur prev : ℚ) : ℚ :=
  if prev = 0 then (if cur = 0 then 0 else 100)
  else
    let ratio := Double.round (Double.round (cur - prev) / prev)
    Double.round (mathRound (Double.round (ratio * 10000)) / 100)

def deltaAbs (cur prev : ℚ) : ℚ := round2 (cur - prev)

def wrapPct (value prev : ℚ) : MetricWithDelta := ⟨value, deltaPct value prev⟩

def wrapAbs (value prev : ℚ) : MetricWithDelta := ⟨value, deltaAbs value prev⟩

-- `findFirst({ where: { ownerId }, orderBy: { createdAt: 'desc' } })`
def ownerOrderBy : OrderBy Business := ⟨Timeᵒᵈ, inferInstance, fun b => .toDual b.createdAt⟩

-- `owned` and `top` are how the database orders the rows of the two queries that have an
-- order, for one request.
variable (owned : QueryOrder ownerOrderBy) {texts : OrderBy String}
  (top : QueryOrder (topQuestsOrderBy texts)) (db : PortalDb) (now : Time) (ownerId : Id)

def findByOwnerId : Option Business :=
  (owned.order (db.businesses.rows.filter fun b => b.ownerId = some ownerId)).head?

def requireOwnedBusiness : Except ApiError Business :=
  match findByOwnerId owned db ownerId with
  | some b => .ok b
  | none =>
      .error (.forbidden "Business portal is only available when you own a business"
        (some "FORBIDDEN"))

-- A metric over the two windows.
def overWindows (windows : Windows) (wrap : ℚ → ℚ → MetricWithDelta) (metric : DateRange → ℚ) :
    MetricWithDelta := wrap (metric windows.current) (metric windows.previous)

def getMetrics (period : Option BusinessMetricsPeriod) : Except ApiError BusinessMetricsDto := do
  let business ← requireOwnedBusiness owned db ownerId
  let period := period.getD .THIRTY_D
  let windows := currentAndPreviousWindow period now
  return {
    period
    monthlyVisits := overWindows windows wrapPct fun r => countVisits db business.id r
    questCompletions := overWindows windows wrapPct fun r => countQuestCompletions db business.id r
    avgRating := overWindows windows wrapAbs fun r => averageRatingInPeriod db business.id r
    repeatVisitors := overWindows windows wrapPct fun r => repeatVisitorPercent db business.id r }

def toTopQuest (r : TopQuestSqlRow) : BusinessTopQuestDto where
  id := r.id
  title := r.title
  visits := r.visits
  completions := r.completions
  conversion :=
    if r.visits > 0 then
      let ratio := Double.round (r.completions / r.visits)
      Double.round (mathRound (Double.round (ratio * 10000)) / 10000)
    else 0
  rating := r.rating.map round2
  ratingCount := r.ratingCount

def getTopQuests (period : Option BusinessMetricsPeriod) (limit : ℕ) :
    Except ApiError (List BusinessTopQuestDto) := do
  let business ← requireOwnedBusiness owned db ownerId
  let windows := currentAndPreviousWindow (period.getD .THIRTY_D) now
  return (listTopQuests db business.id windows.current top limit).map toTopQuest

end BusinessesService

end SideQuest
