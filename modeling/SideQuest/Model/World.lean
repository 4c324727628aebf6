import SideQuest.Model.Entities
import Mathlib.Data.List.Sort

-- The database as the services see it, the changes a write makes, and the rows and
-- unique keys that it locks.

namespace SideQuest

structure World where
  clock : Time
  users : Table User.id
  quests : Table Quest.id
  questLocations : Table QuestLocation.id
  checkIns : Table QuestLocationCheckIn.key
  completions : Table QuestCompletion.key
  -- in order of creation
  achievements : Table Achievement.id
  userAchievements : Table UserAchievement.key
  invites : Table Invite.id
  friendships : Table Friendship.id
  -- what went over the event bus so far
  events : List AppEvent

-- A field of Prisma's update data: left out, a value or `{ increment: n }`.
inductive FieldUpdate (α : Type) where
  | keep
  | set (a : α)
  | increment (a : α)
  deriving DecidableEq

def FieldUpdate.apply {α : Type} [Add α] : FieldUpdate α → α → α
  | .keep, old => old
  | .set a, _ => a
  | .increment a, old => old + a

structure UserUpdate where
  xp : FieldUpdate ℤ := .keep
  level : Option ℕ := none
  questsDone : FieldUpdate ℕ := .keep
  streakDays : Option ℕ := none
  longestStreakDays : Option ℕ := none
  placesVisited : FieldUpdate ℕ := .keep
  distanceWalkedM : FieldUpdate ℤ := .keep
  lastQuestCompletedAt : Option Time := none
  lastLoginAt : Option Time := none
  refreshTokenHash : Option (Option String) := none
  deriving DecidableEq

def UserUpdate.apply (d : UserUpdate) (u : User) : User :=
  { u with
    xp := d.xp.apply u.xp
    level := d.level.getD u.level
    questsDone := d.questsDone.apply u.questsDone
    streakDays := d.streakDays.getD u.streakDays
    longestStreakDays := d.longestStreakDays.getD u.longestStreakDays
    placesVisited := d.placesVisited.apply u.placesVisited
    distanceWalkedM := d.distanceWalkedM.apply u.distanceWalkedM
    lastQuestCompletedAt := d.lastQuestCompletedAt <|> u.lastQuestCompletedAt
    lastLoginAt := d.lastLoginAt <|> u.lastLoginAt
    refreshTokenHash := d.refreshTokenHash.getD u.refreshTokenHash }

@[simp] theorem UserUpdate.id_apply (d : UserUpdate) (row : User) :
    (d.apply row).id = row.id := rfl

structure QuestCompletionUpdate where
  status : Option QuestCompletionStatus := none
  startedAt : Option Time := none
  completedAt : Option Time := none
  xpAwarded : Option ℤ := none
  durationMin : Option ℤ := none
  proof : Option CompletionProof := none
  -- `{ push: locationId }`
  checkedInLocationIds : Option Id := none
  deriving DecidableEq

def QuestCompletionUpdate.apply (d : QuestCompletionUpdate) (c : QuestCompletion) :
    QuestCompletion :=
  { c with
    status := d.status.getD c.status
    startedAt := d.startedAt.getD c.startedAt
    completedAt := d.completedAt <|> c.completedAt
    xpAwarded := d.xpAwarded.getD c.xpAwarded
    durationMin := d.durationMin <|> c.durationMin
    proof := d.proof <|> c.proof
    checkedInLocationIds := c.checkedInLocationIds ++ d.checkedInLocationIds.toList }

@[simp] theorem QuestCompletionUpdate.key_apply (d : QuestCompletionUpdate) (row : QuestCompletion) :
    (d.apply row).key = row.key := rfl

structure UserAchievementUpdate where
  unlockedAt : Option Time := none
  progress : Option ℤ := none
  deriving DecidableEq

def UserAchievementUpdate.apply (d : UserAchievementUpdate) (a : UserAchievement) :
    UserAchievement :=
  { a with
    unlockedAt := d.unlockedAt <|> a.unlockedAt
    progress := d.progress.getD a.progress }

@[simp] theorem UserAchievementUpdate.key_apply (d : UserAchievementUpdate) (row : UserAchievement) :
    (d.apply row).key = row.key := rfl

structure InviteUpdate where
  status : InviteStatus
  inviteeId : Option Id := none
  acceptedAt : Option Time := none
  deriving DecidableEq

def InviteUpdate.apply (d : InviteUpdate) (i : Invite) : Invite :=
  { i with
    status := d.status
    inviteeId := d.inviteeId <|> i.inviteeId
    acceptedAt := d.acceptedAt <|> i.acceptedAt }

@[simp] theorem InviteUpdate.id_apply (d : InviteUpdate) (row : Invite) :
    (d.apply row).id = row.id := rfl

structure FriendshipUpdate where
  status : FriendshipStatus
  respondedAt : Time
  deriving DecidableEq

def FriendshipUpdate.apply (d : FriendshipUpdate) (f : Friendship) : Friendship :=
  { f with status := d.status, respondedAt := some d.respondedAt }

@[simp] theorem FriendshipUpdate.id_apply (d : FriendshipUpdate) (row : Friendship) :
    (d.apply row).id = row.id := rfl

-- A change of one row, or an event put on the bus.
inductive Write where
  | userCreate (row : User)
  | userUpdate (id : Id) (data : UserUpdate)
  | checkInCreate (row : QuestLocationCheckIn)
  | completionCreate (row : QuestCompletion)
  | completionUpdate (userId questId : Id) (data : QuestCompletionUpdate)
  | userAchievementCreate (row : UserAchievement)
  | userAchievementUpdate (userId achievementId : Id) (data : UserAchievementUpdate)
  | inviteCreate (row : Invite)
  | inviteUpdate (id : Id) (data : InviteUpdate)
  | friendshipCreate (row : Friendship)
  | friendshipUpdate (id : Id) (data : FriendshipUpdate)
  | friendshipDelete (row : Friendship)
  | emit (event : AppEvent)
  deriving DecidableEq

-- The unit of locking: a row by its primary key, or a value of a unique column.
inductive Lock where
  | user (id : Id)
  | userEmail (email : String)
  | username (username : String)
  | checkIn (userId locationId : Id)
  | completion (userId questId : Id)
  | userAchievement (userId achievementId : Id)
  | invite (id : Id)
  | inviteToken (token : String)
  | friendship (id : Id)
  | friendshipPair (requesterId addresseeId : Id)
  deriving DecidableEq

def Write.locks : Write → List Lock
  | .userCreate row => [.user row.id, .userEmail row.email, .username row.username]
  | .userUpdate id _ => [.user id]
  | .checkInCreate row => [.checkIn row.userId row.locationId]
  | .completionCreate row => [.completion row.userId row.questId]
  | .completionUpdate u q _ => [.completion u q]
  | .userAchievementCreate row => [.userAchievement row.userId row.achievementId]
  | .userAchievementUpdate u a _ => [.userAchievement u a]
  | .inviteCreate row => [.invite row.id, .inviteToken row.token]
  | .inviteUpdate id _ => [.invite id]
  | .friendshipCreate row =>
      [.friendship row.id, .friendshipPair row.requesterId row.addresseeId]
  | .friendshipUpdate id _ => [.friendship id]
  | .friendshipDelete row =>
      [.friendship row.id, .friendshipPair row.requesterId row.addresseeId]
  | .emit _ => []

namespace World

def empty : World where
  clock := 0
  users := Table.empty
  quests := Table.empty
  questLocations := Table.empty
  checkIns := Table.empty
  completions := Table.empty
  achievements := Table.empty
  userAchievements := Table.empty
  invites := Table.empty
  friendships := Table.empty
  events := []

def userByEmail (w : World) (email : String) : Option User :=
  w.users.rows.find? fun u => u.email = email

def userByUsername (w : World) (username : String) : Option User :=
  w.users.rows.find? fun u => u.username = username

def inviteByToken (w : World) (token : String) : Option Invite :=
  w.invites.rows.find? fun i => i.token = token

def friendshipOfPair (w : World) (requesterId addresseeId : Id) : Option Friendship :=
  w.friendships.rows.find? fun f => f.requesterId = requesterId ∧ f.addresseeId = addresseeId

-- The friendship of two users, whoever has requested it.
def friendshipBetween (w : World) (a b : Id) : Option Friendship :=
  w.friendships.rows.find? fun f =>
    (f.requesterId = a ∧ f.addresseeId = b) ∨ (f.requesterId = b ∧ f.addresseeId = a)

-- `include: { locations: { orderBy: { orderIndex: 'asc' } } }`
def locationsOf (w : World) (questId : Id) : List QuestLocation :=
  (w.questLocations.rows.filter fun l => l.questId = questId).insertionSort
    fun l l' => l.orderIndex ≤ l'.orderIndex

def apply (w : World) : Write → World
  | .userCreate row => { w with users := w.users.insert row }
  | .userUpdate id d => { w with users := w.users.modify id d.apply d.id_apply }
  | .checkInCreate row => { w with checkIns := w.checkIns.insert row }
  | .completionCreate row => { w with completions := w.completions.insert row }
  | .completionUpdate u q d =>
      { w with completions := w.completions.modify (u, q) d.apply d.key_apply }
  | .userAchievementCreate row => { w with userAchievements := w.userAchievements.insert row }
  | .userAchievementUpdate u a d =>
      { w with userAchievements := w.userAchievements.modify (u, a) d.apply d.key_apply }
  | .inviteCreate row => { w with invites := w.invites.insert row }
  | .inviteUpdate id d => { w with invites := w.invites.modify id d.apply d.id_apply }
  | .friendshipCreate row => { w with friendships := w.friendships.insert row }
  | .friendshipUpdate id d => { w with friendships := w.friendships.modify id d.apply d.id_apply }
  | .friendshipDelete row => { w with friendships := w.friendships.erase row.id }
  | .emit event => { w with events := w.events ++ [event] }

theorem find?_userUpdate (w : World) (id : Id) (d : UserUpdate) (id' : Id) :
    (w.apply (.userUpdate id d)).users.find? id' =
      if id' = id then (w.users.find? id').map d.apply else w.users.find? id' :=
  Table.find?_modify w.users id d.apply d.id_apply id'

theorem friendshipBetween_eq_some {w : World} {a b : Id} {f : Friendship}
    (h : w.friendshipBetween a b = some f) : f ∈ w.friendships.rows ∧
      ((f.requesterId = a ∧ f.addresseeId = b) ∨ (f.requesterId = b ∧ f.addresseeId = a)) := by
  have hpair := List.find?_some h
  exact ⟨List.mem_of_find?_eq_some h, of_decide_eq_true hpair⟩

-- The references to users that the schema enforces.
structure ForeignKeys (w : World) : Prop where
  completions : ∀ c ∈ w.completions.rows, (w.users.find? c.userId).isSome
  userAchievements : ∀ a ∈ w.userAchievements.rows, (w.users.find? a.userId).isSome
  inviters : ∀ i ∈ w.invites.rows, (w.users.find? i.inviterId).isSome
  invitees : ∀ i ∈ w.invites.rows, ∀ id, i.inviteeId = some id → (w.users.find? id).isSome
  requesters : ∀ f ∈ w.friendships.rows, (w.users.find? f.requesterId).isSome
  addressees : ∀ f ∈ w.friendships.rows, (w.users.find? f.addresseeId).isSome

end World

end SideQuest
