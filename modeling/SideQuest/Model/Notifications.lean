import SideQuest.Model.Achievements

-- The listeners that turn events into notifications, and `NotificationDto.fromEntity`,
-- which reads one back. Ids are texts here, as they are in JSON.

namespace SideQuest

inductive NotificationType where
  | QUEST_COMPLETED | ACHIEVEMENT_UNLOCKED | FRIEND_REQUEST_RECEIVED | FRIEND_REQUEST_ACCEPTED
  | LEVEL_UP | BUSINESS_QUEST_APPROVED
  deriving DecidableEq

-- The value of the enum.
def NotificationType.text : NotificationType → String
  | .QUEST_COMPLETED => "QUEST_COMPLETED"
  | .ACHIEVEMENT_UNLOCKED => "ACHIEVEMENT_UNLOCKED"
  | .FRIEND_REQUEST_RECEIVED => "FRIEND_REQUEST_RECEIVED"
  | .FRIEND_REQUEST_ACCEPTED => "FRIEND_REQUEST_ACCEPTED"
  | .LEVEL_UP => "LEVEL_UP"
  | .BUSINESS_QUEST_APPROVED => "BUSINESS_QUEST_APPROVED"

def parseStoredNotificationType (stored : String) : NotificationType :=
  if stored = "QUEST_COMPLETED" ∨ stored = "quest.completed" then .QUEST_COMPLETED
  else if stored = "ACHIEVEMENT_UNLOCKED" ∨ stored = "achievement.unlocked" then .ACHIEVEMENT_UNLOCKED
  else if stored = "FRIEND_REQUEST_RECEIVED" ∨ stored = "friend.request" then .FRIEND_REQUEST_RECEIVED
  else if stored = "FRIEND_REQUEST_ACCEPTED" ∨ stored = "friend.accepted" then .FRIEND_REQUEST_ACCEPTED
  else if stored = "LEVEL_UP" then .LEVEL_UP
  else if stored = "BUSINESS_QUEST_APPROVED" then .BUSINESS_QUEST_APPROVED
  else .QUEST_COMPLETED

-- The `ParticipantSummaryDto` of a notification.
structure FromUser where
  id : String
  username : String
  displayName : Option String
  avatarUrl : Option String
  level : ℚ
  deriving DecidableEq

structure NotificationDataDto where
  questId : Option String := none
  xpAwarded : Option ℚ := none
  achievementId : Option String := none
  slug : Option String := none
  friendshipId : Option String := none
  previousLevel : Option ℚ := none
  newLevel : Option ℚ := none
  fromUser : Option FromUser := none
  deriving DecidableEq

def parseFromUser (value : Json) : Option FromUser := do
  let id ← value.getString "id"
  let username ← value.getString "username"
  let level ← value.getNumber "level"
  return {
    id, username, level
    displayName := value.getString "displayName"
    avatarUrl := value.getString "avatarUrl" }

-- `undefined` is `none`.
def parseNotificationDataJson (value : Option Json) : Option NotificationDataDto :=
  value.bind fun value =>
    let out : NotificationDataDto := {
      questId := value.getString "questId"
      xpAwarded := value.getNumber "xpAwarded"
      achievementId := value.getString "achievementId"
      slug := value.getString "slug"
      friendshipId := value.getString "friendshipId"
      previousLevel := value.getNumber "previousLevel"
      newLevel := value.getNumber "newLevel"
      fromUser := (value.get "fromUser").bind parseFromUser }
    if out = {} then none else some out

-- A row of the table.
structure NotificationRow where
  id : String
  userId : String
  type : String
  title : String
  body : Option String
  data : Option Json
  readAt : Option Time := none
  createdAt : Time

structure NotificationDto where
  id : String
  userId : String
  type : NotificationType
  title : String
  body : Option String
  data : Option NotificationDataDto
  readAt : Option Time
  createdAt : Time

def NotificationDto.fromEntity (n : NotificationRow) : NotificationDto where
  id := n.id
  userId := n.userId
  type := parseStoredNotificationType n.type
  title := n.title
  body := n.body
  data := parseNotificationDataJson n.data
  readAt := n.readAt
  createdAt := n.createdAt

namespace NotificationsService

-- What a listener passes to `send`.
structure SendInput where
  userId : String
  type : NotificationType
  title : String
  body : Option String := none
  data : Option Json := none

-- The new row; the database sets its id and its time.
def create (input : SendInput) (id : String) (now : Time) : NotificationRow where
  id := id
  userId := input.userId
  type := input.type.text
  title := input.title
  body := input.body
  data := input.data
  createdAt := now

def send (input : SendInput) (id : String) (now : Time) : NotificationDto :=
  .fromEntity (create input id now)

section Guards

variable (v : Json)

def isQuestCompleted : Bool :=
  (v.getString "userId").isSome && (v.getString "questId").isSome && (v.getNumber "xpAwarded").isSome

def isAchievementUnlocked : Bool :=
  (v.getString "userId").isSome && (v.getString "achievementId").isSome &&
    (v.getString "achievementSlug").isSome

def isFriendRequestSent : Bool :=
  (v.getString "requesterId").isSome && (v.getString "addresseeId").isSome &&
    (v.getString "friendshipId").isSome

def isFriendRequestAccepted : Bool := isFriendRequestSent v

def isLevelUp : Bool :=
  (v.getString "userId").isSome && (v.getNumber "previousLevel").isSome &&
    (v.getNumber "newLevel").isSome

def isBusinessQuestApproved : Bool :=
  (v.getString "userId").isSome && (v.getString "questId").isSome

end Guards

section Listeners

-- A number in a text.
variable (numberText : ℚ → String)

-- The fields that the type guard asks for are all there, or there is no notification.
def onQuestCompleted (payload : Json) : Option SendInput := do
  let userId ← payload.getString "userId"
  let questId ← payload.getString "questId"
  let xpAwarded ← payload.getNumber "xpAwarded"
  return {
    userId
    type := .QUEST_COMPLETED
    title := "Quest completed!"
    body := some ("You earned " ++ numberText xpAwarded ++ " XP.")
    data := some (.obj [("questId", .str questId), ("xpAwarded", .num xpAwarded)]) }

def onAchievementUnlocked (payload : Json) : Option SendInput := do
  let userId ← payload.getString "userId"
  let achievementId ← payload.getString "achievementId"
  let achievementSlug ← payload.getString "achievementSlug"
  return {
    userId
    type := .ACHIEVEMENT_UNLOCKED
    title := "Achievement unlocked"
    body := some ("New achievement: " ++ achievementSlug)
    data := some (.obj [("achievementId", .str achievementId), ("slug", .str achievementSlug)]) }

def orNull (text : Option String) : Json := text.elim .null .str

def participantToJson (p : FromUser) : Json :=
  .obj [("id", .str p.id), ("username", .str p.username), ("level", .num p.level),
    ("displayName", orNull p.displayName), ("avatarUrl", orNull p.avatarUrl)]

-- What both friend listeners store; there may be no such user.
def friendData (friendshipId : String) (fromUser : Option FromUser) : Json :=
  .obj (("friendshipId", .str friendshipId) ::
    (fromUser.map fun p => ("fromUser", participantToJson p)).toList)

-- `loadParticipantSummary`, as the table of users answers it.
variable (loadParticipantSummary : String → Option FromUser)

def onFriendRequestSent (payload : Json) : Option SendInput := do
  let requesterId ← payload.getString "requesterId"
  let addresseeId ← payload.getString "addresseeId"
  let friendshipId ← payload.getString "friendshipId"
  return {
    userId := addresseeId
    type := .FRIEND_REQUEST_RECEIVED
    title := "New friend request"
    data := some (friendData friendshipId (loadParticipantSummary requesterId)) }

def onFriendRequestAccepted (payload : Json) : Option SendInput := do
  let requesterId ← payload.getString "requesterId"
  let addresseeId ← payload.getString "addresseeId"
  let friendshipId ← payload.getString "friendshipId"
  return {
    userId := requesterId
    type := .FRIEND_REQUEST_ACCEPTED
    title := "Friend request accepted"
    data := some (friendData friendshipId (loadParticipantSummary addresseeId)) }

def onLevelUp (payload : Json) : Option SendInput := do
  let userId ← payload.getString "userId"
  let previousLevel ← payload.getNumber "previousLevel"
  let newLevel ← payload.getNumber "newLevel"
  return {
    userId
    type := .LEVEL_UP
    title := "Level up!"
    body := some ("You reached level " ++ numberText newLevel ++ ".")
    data := some (.obj [("previousLevel", .num previousLevel), ("newLevel", .num newLevel)]) }

def onBusinessQuestApproved (payload : Json) : Option SendInput := do
  let userId ← payload.getString "userId"
  let questId ← payload.getString "questId"
  return {
    userId
    type := .BUSINESS_QUEST_APPROVED
    title := "Quest approved"
    body := some "Your business quest is now published."
    data := some (.obj [("questId", .str questId)]) }

-- The events that have a listener.
inductive NotifyingEvent where
  | QuestCompleted | AchievementUnlocked | FriendRequestSent | FriendRequestAccepted | LevelUp
  | BusinessQuestApproved

def NotifyingEvent.guard : NotifyingEvent → Json → Bool
  | .QuestCompleted => isQuestCompleted
  | .AchievementUnlocked => isAchievementUnlocked
  | .FriendRequestSent => isFriendRequestSent
  | .FriendRequestAccepted => isFriendRequestAccepted
  | .LevelUp => isLevelUp
  | .BusinessQuestApproved => isBusinessQuestApproved

def listener : NotifyingEvent → Json → Option SendInput
  | .QuestCompleted => onQuestCompleted numberText
  | .AchievementUnlocked => onAchievementUnlocked
  | .FriendRequestSent => onFriendRequestSent loadParticipantSummary
  | .FriendRequestAccepted => onFriendRequestAccepted loadParticipantSummary
  | .LevelUp => onLevelUp numberText
  | .BusinessQuestApproved => onBusinessQuestApproved

end Listeners

end NotificationsService

end SideQuest
