import SideQuest.Model.Host
import SideQuest.Model.Listings

-- The leaderboards: two queries that rank all users of a board, one for its first ranks
-- and one for the rank of the viewer.

namespace SideQuest

-- The columns of a user that a board looks at.
structure RankedUser extends ListedUser where
  avatarUrl : Option String := none
  primaryCity : Option String := none

namespace LeaderboardRepository

structure LeaderboardSqlRow where
  id : Id
  username : String
  displayName : Option String
  avatarUrl : Option String
  level : ℕ
  xp : ℤ
  questsDone : ℕ
  createdAt : Time
  deriving DecidableEq

-- `ORDER BY xp DESC, level DESC, "createdAt" ASC`
def rankOrderBy : OrderBy LeaderboardSqlRow :=
  ⟨ℤᵒᵈ ×ₗ ℕᵒᵈ ×ₗ Time, inferInstance,
    fun r => toLex (.toDual r.xp, toLex (.toDual r.level, r.createdAt))⟩

section Boards

-- `LOWER(BTRIM(..))` in the database.
variable (lowerBtrim : String → String)

-- The `WHERE` of a board; without a city, `NULL` is not the city.
def onBoard (cityLower : Option String) (u : RankedUser) : Bool :=
  u.status = .ACTIVE && cityLower.all fun city => u.primaryCity.map lowerBtrim = some city

def allTimeRow (u : RankedUser) : LeaderboardSqlRow where
  id := u.id
  username := u.username
  displayName := u.displayName
  avatarUrl := u.avatarUrl
  level := u.level
  xp := u.xp
  questsDone := u.questsDone
  createdAt := u.createdAt

-- The join: what the user completed from the start of the period on.
def completedSince (completions : List QuestCompletion) (periodStart : Time) (userId : Id) :
    List QuestCompletion :=
  completions.filter fun c =>
    c.userId = userId ∧ c.status = .COMPLETED ∧ ∃ t ∈ c.completedAt, periodStart ≤ t

def periodXp (completions : List QuestCompletion) (periodStart : Time) (userId : Id) : ℤ :=
  ((completedSince completions periodStart userId).map (·.xpAwarded)).sum

def periodQuestsDone (completions : List QuestCompletion) (periodStart : Time) (userId : Id) : ℕ :=
  (completedSince completions periodStart userId).length

def periodRow (completions : List QuestCompletion) (periodStart : Time) (u : RankedUser) :
    LeaderboardSqlRow :=
  { allTimeRow u with
    xp := periodXp completions periodStart u.id
    questsDone := periodQuestsDone completions periodStart u.id }

-- The rows of a board before they are ranked: of all time, or of a period.
def boardRows (users : List RankedUser) (completions : List QuestCompletion)
    (periodStart : Option Time) (cityLower : Option String) : List LeaderboardSqlRow :=
  (users.filter (onBoard lowerBtrim cityLower)).map
    (periodStart.elim allTimeRow (periodRow completions))

end Boards

-- `ROW_NUMBER()` over the order of the board.
def ranked (db : QueryOrder rankOrderBy) (rows : List LeaderboardSqlRow) :
    List (LeaderboardSqlRow × ℕ) := (db.order rows).zipIdx 1

-- `listTopAllTime` and `listTopPeriod`
def listTop (db : QueryOrder rankOrderBy) (rows : List LeaderboardSqlRow) (limit : ℕ) :
    List (LeaderboardSqlRow × ℕ) := (ranked db rows).filter fun r => r.2 ≤ limit

-- `findMyRankAllTime` and `findMyRankPeriod`
def findMyRank (db : QueryOrder rankOrderBy) (rows : List LeaderboardSqlRow) (userId : Id) :
    Option (LeaderboardSqlRow × ℕ) := (ranked db rows).find? fun r => r.1.id = userId

end LeaderboardRepository

namespace LeaderboardService

open LeaderboardRepository

inductive LeaderboardScope where
  | GLOBAL | CITY
  deriving DecidableEq

inductive LeaderboardPeriod where
  | ALL_TIME | MONTH | WEEK
  deriving DecidableEq

structure LeaderboardQueryDto where
  scope : Option LeaderboardScope := none
  city : Option String := none
  period : Option LeaderboardPeriod := none
  limit : ℕ := 20

structure LeaderboardEntryDto where
  rank : ℕ
  id : Id
  username : String
  displayName : Option String
  avatarUrl : Option String
  level : ℕ
  xp : ℤ
  questsDone : ℕ
  isMe : Bool
  deriving DecidableEq

structure LeaderboardResponseDto where
  entries : List LeaderboardEntryDto
  myEntry : Option LeaderboardEntryDto
  deriving DecidableEq

section Period

def msPerDay : ℤ := 86400000

-- Days since the epoch.
def utcDays (t : Time) : ℤ := t / msPerDay

-- `getUTCDay`, from 0 for Sunday; the epoch was a Thursday.
def getUTCDay (t : Time) : ℤ := (utcDays t + 4) % 7

-- `getUTCDate`, from 1: years are counted from March, in eras of 400 years.
def getUTCDate (t : Time) : ℤ :=
  let dayOfEra := (utcDays t + 719468) % 146097
  let yearOfEra := (dayOfEra - dayOfEra / 1460 + dayOfEra / 36524 - dayOfEra / 146096) / 365
  let dayOfYear := dayOfEra - (365 * yearOfEra + yearOfEra / 4 - yearOfEra / 100)
  dayOfYear - (153 * ((5 * dayOfYear + 2) / 153) + 2) / 5 + 1

def leaderboardPeriodStartUtc (now : Time) : LeaderboardPeriod → Option Time
  | .ALL_TIME => none
  | .MONTH => some ((utcDays now - (getUTCDate now - 1)) * msPerDay)
  | .WEEK =>
      let mondayOffset := if getUTCDay now = 0 then -6 else 1 - getUTCDay now
      some ((utcDays now + mondayOffset) * msPerDay)

-- The last day of a leap February and the first of a March; a Sunday belongs to the week
-- of the Monday before.
example : getUTCDate 1709164800000 = 29 ∧ getUTCDate 1709251200000 = 1 ∧
    leaderboardPeriodStartUtc 1709424000001 .WEEK = some 1708905600000 := by decide

end Period

def toEntry (viewerId : Option Id) (row : LeaderboardSqlRow × ℕ) : LeaderboardEntryDto where
  rank := row.2
  id := row.1.id
  username := row.1.username
  displayName := row.1.displayName
  avatarUrl := row.1.avatarUrl
  level := row.1.level
  xp := row.1.xp
  questsDone := row.1.questsDone
  isMe := viewerId = some row.1.id

-- Whose board it is: a city's, in lower case, or everyone's.
def cityLowerOf (host : Host) (query : LeaderboardQueryDto) : Except ApiError (Option String) :=
  match query.scope.getD .GLOBAL with
  | .GLOBAL => .ok none
  | .CITY =>
      match truthy (query.city.map host.trim) with
      | none => .error (.badRequest "city is required when scope=CITY")
      | some city => .ok (some (host.toLowerCase city))

-- The rows of the board that a query asks for.
def queryRows (lowerBtrim : String → String) (users : List RankedUser)
    (completions : List QuestCompletion) (now : Time) (query : LeaderboardQueryDto)
    (cityLower : Option String) : List LeaderboardSqlRow :=
  boardRows lowerBtrim users completions
    (leaderboardPeriodStartUtc now (query.period.getD .ALL_TIME)) cityLower

-- `db` and `db'` are how the database orders the rows for the one query and for the other.
def respond (rows : List LeaderboardSqlRow) (limit : ℕ) (viewerId : Option Id)
    (db db' : QueryOrder rankOrderBy) : LeaderboardResponseDto :=
  let entries := (listTop db rows limit).map (toEntry viewerId)
  let myEntry := viewerId.bind fun userId =>
    match entries.find? fun e => e.id = userId with
    | some inTop => some inTop
    | none => (findMyRank db' rows userId).map (toEntry viewerId)
  { entries, myEntry }

def get (host : Host) (lowerBtrim : String → String) (users : List RankedUser)
    (completions : List QuestCompletion) (now : Time) (query : LeaderboardQueryDto)
    (viewerId : Option Id) (db db' : QueryOrder rankOrderBy) :
    Except ApiError LeaderboardResponseDto := do
  let cityLower ← cityLowerOf host query
  let rows := queryRows lowerBtrim users completions now query cityLower
  return respond rows query.limit viewerId db db'

end LeaderboardService

end SideQuest
