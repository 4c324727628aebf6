import SideQuest.Lib.Table
import Mathlib.Data.Rat.Defs

-- The rows of the Prisma schema that the modelled services read or write.

namespace SideQuest

-- A CUID. Identifiers are only compared.
abbrev Id := ℕ

-- Milliseconds since the epoch, what `Date.getTime()` returns.
abbrev Time := ℤ

inductive UserRole where
  | USER | MODERATOR | ADMIN | BUSINESS_OWNER
  deriving DecidableEq

inductive UserStatus where
  | ACTIVE | SUSPENDED | DELETED
  deriving DecidableEq

inductive QuestStatus where
  | DRAFT | PUBLISHED | ARCHIVED
  deriving DecidableEq

inductive QuestCompletionStatus where
  | STARTED | COMPLETED | ABANDONED | EXPIRED
  deriving DecidableEq

inductive FriendshipStatus where
  | PENDING | ACCEPTED | BLOCKED
  deriving DecidableEq

inductive AchievementType where
  | QUEST_COUNT | XP_THRESHOLD | CATEGORY_EXPLORER | LOCATION_VISITS | SOCIAL | STREAK | CUSTOM
  deriving DecidableEq

inductive InviteStatus where
  | PENDING | ACCEPTED | EXPIRED | CANCELLED
  deriving DecidableEq

structure Coordinates where
  latitude : ℚ
  longitude : ℚ
  deriving DecidableEq

-- The value of a `Json` column.
inductive Json where
  | null
  | bool (b : Bool)
  | num (q : ℚ)
  | str (s : String)
  | arr (items : List Json)
  | obj (fields : List (String × Json))

structure User where
  id : Id
  email : String
  username : String
  passwordHash : String
  displayName : Option String := none
  role : UserRole := .USER
  status : UserStatus := .ACTIVE
  xp : ℤ := 0
  level : ℕ := 1
  questsDone : ℕ := 0
  streakDays : ℕ := 0
  longestStreakDays : ℕ := 0
  placesVisited : ℕ := 0
  distanceWalkedM : ℤ := 0
  lastQuestCompletedAt : Option Time := none
  lastLoginAt : Option Time := none
  refreshTokenHash : Option String := none
  deriving DecidableEq

structure Quest where
  id : Id
  status : QuestStatus := .DRAFT
  xpReward : ℤ := 50
  -- The slug of the category the quest is connected to.
  categorySlug : Option String := none
  deriving DecidableEq

structure QuestLocation where
  id : Id
  questId : Id
  latitude : ℚ
  longitude : ℚ
  radiusM : ℤ := 50
  orderIndex : ℤ := 0
  deriving DecidableEq

def QuestLocation.coordinates (l : QuestLocation) : Coordinates := ⟨l.latitude, l.longitude⟩

structure QuestLocationCheckIn where
  userId : Id
  questId : Id
  locationId : Id
  latitude : ℚ
  longitude : ℚ
  accuracyM : Option ℕ := none
  createdAt : Time
  deriving DecidableEq

-- `@@unique([userId, locationId])`
def QuestLocationCheckIn.key (c : QuestLocationCheckIn) : Id × Id := (c.userId, c.locationId)

-- What a request stores as the proof of a completion.
inductive CompletionProof where
  | checkIns
  | given (payload : String)
  deriving DecidableEq

structure QuestCompletion where
  userId : Id
  questId : Id
  status : QuestCompletionStatus := .STARTED
  startedAt : Time
  completedAt : Option Time := none
  xpAwarded : ℤ := 0
  durationMin : Option ℤ := none
  proof : Option CompletionProof := none
  checkedInLocationIds : List Id := []
  deriving DecidableEq

-- `@@unique([userId, questId])`
def QuestCompletion.key (c : QuestCompletion) : Id × Id := (c.userId, c.questId)

structure Achievement where
  id : Id
  slug : String
  type : AchievementType
  criteria : Json
  xpBonus : ℤ := 0
  targetValue : Option ℤ := none

structure UserAchievement where
  userId : Id
  achievementId : Id
  unlockedAt : Option Time := none
  progress : ℤ := 0
  deriving DecidableEq

-- `@@unique([userId, achievementId])`
def UserAchievement.key (a : UserAchievement) : Id × Id := (a.userId, a.achievementId)

structure Friendship where
  id : Id
  requesterId : Id
  addresseeId : Id
  status : FriendshipStatus := .PENDING
  respondedAt : Option Time := none
  createdAt : Time
  deriving DecidableEq

structure Invite where
  id : Id
  token : String
  inviterId : Id
  email : String
  status : InviteStatus := .PENDING
  sentAt : Time
  acceptedAt : Option Time := none
  inviteeId : Option Id := none
  deriving DecidableEq

-- The payloads that go over the event bus.
inductive AppEvent where
  | questStarted (userId questId : Id)
  | questLocationCheckedIn (userId questId locationId : Id)
  | questCompleted (userId questId : Id) (xpAwarded : ℤ) (completedAt : Time)
  | achievementUnlocked (userId achievementId : Id) (achievementSlug : String)
  | friendRequestSent (requesterId addresseeId friendshipId : Id)
  | friendRequestAccepted (requesterId addresseeId friendshipId : Id)
  | levelUp (userId : Id) (previousLevel newLevel : ℕ)
  deriving DecidableEq

inductive PrismaError where
  -- unique constraint
  | P2002
  -- foreign key constraint
  | P2003
  -- record to update not found
  | P2025
  deriving DecidableEq

-- What ends a request early.
inductive ApiError where
  | badRequest (message : String)
  | unauthorized (message : String)
  | forbidden (message : String) (code : Option String := none)
  | notFound (message : String)
  | conflict (message : String) (code : Option String := none) (distanceM : Option ℤ := none)
  | tooManyRequests (message code : String)
  | prisma (error : PrismaError)
  -- a timeout, a deadlock victim or a lost connection
  | aborted
  deriving DecidableEq

end SideQuest
