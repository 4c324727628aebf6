import SideQuest.Model.Listings

-- `FriendshipsService.activityFeed`: what the accepted friends did, newest first.

namespace SideQuest

open Paging

-- `Date.prototype.toISOString` and `new Date(text)`, which gives no time for some texts.
structure DateTexts where
  toISOString : Time → String
  parse : String → Option Time

-- What the language promises of the times that a date can hold.
structure DateTexts.RoundTrips (dates : DateTexts) (t : Time) : Prop where
  parse_toISOString : dates.parse (dates.toISOString t) = some t
  toISOString_ne : dates.toISOString t ≠ ""

structure ParticipantSummaryDto where
  id : Id
  username : String
  displayName : Option String := none
  avatarUrl : Option String := none
  level : ℕ := 1
  deriving DecidableEq

structure QuestTitle where
  id : Id
  title : String

structure AchievementTitle where
  id : Id
  name : String
  xpBonus : ℤ

structure LocationLabel where
  name : Option String
  address : Option String

-- The rows with the ones that the queries include with them.
structure FriendCompletion extends QuestCompletion where
  id : Id
  user : ParticipantSummaryDto
  quest : QuestTitle
  user_id : user.id = userId
  quest_id : quest.id = questId

structure FriendAchievement extends UserAchievement where
  id : Id
  user : ParticipantSummaryDto
  achievement : AchievementTitle
  user_id : user.id = userId
  achievement_id : achievement.id = achievementId

structure FriendNotification extends Notification where
  user : ParticipantSummaryDto
  user_id : user.id = userId

structure FriendCheckIn extends QuestLocationCheckIn where
  id : Id
  user : ParticipantSummaryDto
  quest : QuestTitle
  location : LocationLabel
  user_id : user.id = userId
  quest_id : quest.id = questId

structure ActivityTables where
  friendships : Table Friendship.id
  completions : Table FriendCompletion.id
  userAchievements : Table FriendAchievement.id
  notifications : Table fun n : FriendNotification => n.id
  checkIns : Table FriendCheckIn.id

inductive FriendActivityKind where
  | QuestCompleted | QuestStarted | AchievementUnlocked | LevelUp | PlaceVisited
  deriving DecidableEq

structure FriendActivityDto where
  id : Id
  kind : FriendActivityKind
  userId : Id
  user : ParticipantSummaryDto
  questId : Option Id := none
  questTitle : Option String := none
  achievementId : Option Id := none
  achievementTitle : Option String := none
  placeName : Option String := none
  xpEarned : Option ℤ := none
  createdAt : String
  deriving DecidableEq

namespace FriendshipsService

-- Ids come out in the order in which they are first found.
def acceptedFriendIds (friendships : List Friendship) (userId : Id) : List Id :=
  let rows := friendships.filter fun f =>
    f.status = .ACCEPTED ∧ (f.requesterId = userId ∨ f.addresseeId = userId)
  (rows.map fun r => if r.requesterId = userId then r.addresseeId else r.requesterId).eraseDups

structure MergeRow where
  createdAt : Time
  id : Id
  dto : FriendActivityDto

section Rows

variable (dates : DateTexts)

def completedRow (c : FriendCompletion) : Option MergeRow :=
  c.completedAt.map fun completedAt =>
    { createdAt := completedAt
      id := c.id
      dto :=
        { id := c.id
          kind := .QuestCompleted
          userId := c.user.id
          user := c.user
          questId := some c.quest.id
          questTitle := some c.quest.title
          xpEarned := some c.xpAwarded
          createdAt := dates.toISOString completedAt } }

def startedRow (c : FriendCompletion) : MergeRow where
  createdAt := c.startedAt
  id := c.id
  dto :=
    { id := c.id
      kind := .QuestStarted
      userId := c.user.id
      user := c.user
      questId := some c.quest.id
      questTitle := some c.quest.title
      createdAt := dates.toISOString c.startedAt }

def achievementRow (a : FriendAchievement) : Option MergeRow :=
  a.unlockedAt.map fun unlockedAt =>
    { createdAt := unlockedAt
      id := a.id
      dto :=
        { id := a.id
          kind := .AchievementUnlocked
          userId := a.user.id
          user := a.user
          achievementId := some a.achievement.id
          achievementTitle := some a.achievement.name
          xpEarned := some a.achievement.xpBonus
          createdAt := dates.toISOString unlockedAt } }

def levelUpRow (n : FriendNotification) : MergeRow where
  createdAt := n.createdAt
  id := n.id
  dto :=
    { id := n.id
      kind := .LevelUp
      userId := n.user.id
      user := n.user
      createdAt := dates.toISOString n.createdAt }

def placeLabel (loc : LocationLabel) : Option String := truthy loc.name <|> truthy loc.address

def visitRow (visit : FriendCheckIn) : MergeRow where
  createdAt := visit.createdAt
  id := visit.id
  dto :=
    { id := visit.id
      kind := .PlaceVisited
      userId := visit.user.id
      user := visit.user
      questId := some visit.quest.id
      questTitle := some visit.quest.title
      placeName := placeLabel visit.location
      createdAt := dates.toISOString visit.createdAt }

end Rows

-- The rows of the five queries.
structure ActivityStreams where
  completedQuests : List FriendCompletion
  startedQuests : List FriendCompletion
  achievements : List FriendAchievement
  levelUps : List FriendNotification
  placeVisits : List FriendCheckIn

def olderThan (before : Option Time) (t : Time) : Bool := before.all fun b => t < b

-- What the `where` of each query matches.
def matching (db : ActivityTables) (friendIds : List Id) (before : Option Time) :
    ActivityStreams where
  completedQuests := db.completions.rows.filter fun c =>
    c.userId ∈ friendIds ∧ c.status = .COMPLETED ∧ c.completedAt.any (olderThan before)
  startedQuests := db.completions.rows.filter fun c =>
    c.userId ∈ friendIds ∧ c.status = .STARTED ∧ olderThan before c.startedAt
  achievements := db.userAchievements.rows.filter fun a =>
    a.userId ∈ friendIds ∧ a.unlockedAt.any (olderThan before)
  levelUps := db.notifications.rows.filter fun n =>
    n.userId ∈ friendIds ∧ n.type = "LEVEL_UP" ∧ olderThan before n.createdAt
  placeVisits := db.checkIns.rows.filter fun visit =>
    visit.userId ∈ friendIds ∧ olderThan before visit.createdAt

def completedOrderBy : OrderBy FriendCompletion :=
  ⟨(WithTop Time)ᵒᵈ, inferInstance, fun c => .toDual c.completedAt⟩

def startedOrderBy : OrderBy FriendCompletion :=
  ⟨Timeᵒᵈ, inferInstance, fun c => .toDual c.startedAt⟩

def achievementsOrderBy : OrderBy FriendAchievement :=
  ⟨(WithTop Time)ᵒᵈ, inferInstance, fun a => .toDual a.unlockedAt⟩

def levelUpsOrderBy : OrderBy FriendNotification :=
  ⟨Timeᵒᵈ, inferInstance, fun n => .toDual n.createdAt⟩

def placeVisitsOrderBy : OrderBy FriendCheckIn :=
  ⟨Timeᵒᵈ, inferInstance, fun visit => .toDual visit.createdAt⟩

-- How the database orders the rows of the five queries of one call.
structure ActivityOrders where
  completedQuests : QueryOrder completedOrderBy
  startedQuests : QueryOrder startedOrderBy
  achievements : QueryOrder achievementsOrderBy
  levelUps : QueryOrder levelUpsOrderBy
  placeVisits : QueryOrder placeVisitsOrderBy

namespace ActivityStreams

def fetch (orders : ActivityOrders) (perStream : ℕ) (s : ActivityStreams) : ActivityStreams where
  completedQuests := findMany orders.completedQuests s.completedQuests 0 perStream
  startedQuests := findMany orders.startedQuests s.startedQuests 0 perStream
  achievements := findMany orders.achievements s.achievements 0 perStream
  levelUps := findMany orders.levelUps s.levelUps 0 perStream
  placeVisits := findMany orders.placeVisits s.placeVisits 0 perStream

def merged (dates : DateTexts) (s : ActivityStreams) : List MergeRow :=
  s.completedQuests.filterMap (completedRow dates) ++
    s.startedQuests.map (startedRow dates) ++
    s.achievements.filterMap (achievementRow dates) ++
    s.levelUps.map (levelUpRow dates) ++
    s.placeVisits.map (visitRow dates)

def hitCap (perStream : ℕ) (s : ActivityStreams) : Bool :=
  s.completedQuests.length ≥ perStream || s.startedQuests.length ≥ perStream ||
    s.achievements.length ≥ perStream || s.levelUps.length ≥ perStream ||
    s.placeVisits.length ≥ perStream

end ActivityStreams

-- The newest come first, and of those of one millisecond the one with the greatest id.
def MergeRow.sortKey (row : MergeRow) : Timeᵒᵈ ×ₗ Idᵒᵈ :=
  toLex (.toDual row.createdAt, .toDual row.id)

def parseCursor (dates : DateTexts) (cursor : Option String) : Except ApiError (Option Time) :=
  match truthy cursor with
  | none => .ok none
  | some text =>
      match dates.parse text with
      | none => .error (.badRequest "cursor must be a valid ISO 8601 timestamp")
      | some before => .ok (some before)

def feedLimit (limit : ℤ) : ℕ := (max 1 (min 100 limit)).toNat

def perStream (limit : ℕ) : ℕ := min 500 (max (limit + 60) (limit * 12))

structure ActivityOptions where
  limit : ℤ
  cursor : Option String := none

structure ActivityPage where
  items : List FriendActivityDto
  nextCursor : Option String := none
  deriving DecidableEq

-- The page that is cut from the merged rows.
def pageOf (limit : ℕ) (merged : List MergeRow) (hitCap : Bool) : ActivityPage :=
  let pageRows := merged.take limit
  let hasMore := merged.length > limit || (pageRows.length = limit && hitCap)
  { items := pageRows.map MergeRow.dto
    nextCursor := if hasMore then pageRows.getLast?.map fun row => row.dto.createdAt else none }

def activityFeed (dates : DateTexts) (db : ActivityTables) (userId : Id)
    (options : ActivityOptions) (orders : ActivityOrders) : Except ApiError ActivityPage := do
  let friendIds := acceptedFriendIds db.friendships.rows userId
  if friendIds = [] then return { items := [] }
  let limit := feedLimit options.limit
  let before ← parseCursor dates options.cursor
  let streams := (matching db friendIds before).fetch orders (perStream limit)
  let merged := (streams.merged dates).insertionSort fun a b => a.sortKey ≤ b.sortKey
  return pageOf limit merged (streams.hitCap (perStream limit))

end FriendshipsService

end SideQuest
