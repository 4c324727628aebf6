import SideQuest.Model.Feed
import SideQuest.Lib.Interleaving

-- `LastSeenAtInterceptor` and `FriendshipsService.listFriends`: the column that the one
-- writes and the other looks at, amid tables that others change.

namespace SideQuest

structure FriendUser extends ParticipantSummaryDto where
  xp : ℤ := 0
  deriving DecidableEq

structure DatedFriendship extends Friendship where
  updatedAt : Time
  deriving DecidableEq

namespace Presence

-- The tables that these requests only read.
structure Social where
  users : Table fun u : FriendUser => u.id
  friendships : Table fun f : DatedFriendship => f.id
  completions : Table QuestCompletion.key
  questTitles : Id → Option String

structure World where
  clock : Time
  lastSeenAt : Id → Option Time
  social : Social
  -- the ids given to users so far; `cuid()` never gives one twice
  givenIds : List Id

inductive Write where
  | lastSeenAt (userId : Id) (now : Time)
  -- for the log only: a request of the user has come in, and its `touchLastSeen` has been answered
  | visit (userId : Id) (arrived : Time)
  | touched (userId : Id) (arrived : Time)

namespace World

def apply (w : World) : Write → World
  | .lastSeenAt userId now =>
      { w with lastSeenAt := Function.update w.lastSeenAt userId (some now) }
  | .visit _ _ | .touched _ _ => w

-- What others do to the tables. A user who has been deleted does not come back.
def change (w : World) (social : Social) : World :=
  let users := social.users.filter fun u =>
    (w.social.users.find? u.id).isSome ∨ u.id ∉ w.givenIds
  { w with
    social := { social with users := users }
    givenIds := w.givenIds ++ users.rows.map fun u => u.id }

end World

-- `"lastSeenAt" IS NULL OR "lastSeenAt" < NOW() - INTERVAL '60 seconds'`
def stale (now : Time) (lastSeenAt : Option Time) : Bool := lastSeenAt.all fun t => t < now - 60000

structure FriendRow where
  id : Id
  username : String
  displayName : Option String
  avatarUrl : Option String
  level : ℕ
  xp : ℤ
  lastSeenAt : Option Time
  mutualQuestsCount : ℕ
  currentQuestId : Option Id
  currentQuestTitle : Option String
  status : String
  deriving DecidableEq

-- `ORDER BY qc."startedAt" DESC`
def startedOrderBy : OrderBy QuestCompletion := ⟨Timeᵒᵈ, inferInstance, fun c => .toDual c.startedAt⟩

-- `ORDER BY fr.sort_key DESC NULLS LAST`, over rows with their key, which is never null
def friendsOrderBy : OrderBy (FriendRow × Time) := ⟨Timeᵒᵈ, inferInstance, fun r => .toDual r.2⟩

structure FriendOrders where
  started : QueryOrder startedOrderBy
  friends : QueryOrder friendsOrderBy

section Rows

variable (orders : FriendOrders) (w : World) (userId : Id)

-- `friends`: who is on the other side of an accepted friendship, with `sort_key`
def friends : List (Id × Time) :=
  (w.social.friendships.rows.filter fun f =>
    f.status = .ACCEPTED ∧ (f.requesterId = userId ∨ f.addresseeId = userId)).map fun f =>
      (if f.requesterId = userId then f.addresseeId else f.requesterId, f.respondedAt.getD f.updatedAt)

-- `mutual`: the pairs of completions of one quest
def mutualQuests (friendId : Id) : ℕ :=
  w.social.completions.sum fun mine => w.social.completions.count fun theirs =>
    (mine.userId = userId ∧ mine.status = .COMPLETED) ∧
      (theirs.userId = friendId ∧ theirs.status = .COMPLETED) ∧ mine.questId = theirs.questId

-- the completions that `cq` orders
def underWay (friendId : Id) : List QuestCompletion :=
  w.social.completions.rows.filter fun c =>
    c.userId = friendId ∧ c.status = .STARTED ∧ c.startedAt > w.clock - 7200000

def currentQuestId (friendId : Id) : Option Id :=
  (orders.started.order (underWay w friendId)).head?.map QuestCompletion.questId

def presenceOf (currentQuest : Option Id) (lastSeenAt : Option Time) : String :=
  if currentQuest.isSome then "QUESTING"
  else if lastSeenAt.any fun t => t > w.clock - 300000 then "ONLINE"
  else "OFFLINE"

def friendRow (u : FriendUser) : FriendRow :=
  let cq := currentQuestId orders w u.id
  { id := u.id
    username := u.username
    displayName := u.displayName
    avatarUrl := u.avatarUrl
    level := u.level
    xp := u.xp
    lastSeenAt := w.lastSeenAt u.id
    mutualQuestsCount := mutualQuests w userId u.id
    currentQuestId := cq
    currentQuestTitle := cq.bind w.social.questTitles
    status := presenceOf w cq (w.lastSeenAt u.id) }

def joinedRows : List (FriendRow × Time) :=
  (friends w userId).filterMap fun fr =>
    (w.social.users.find? fr.1).map fun u => (friendRow orders w userId u, fr.2)

def queryRows : List FriendRow := (orders.friends.order (joinedRows orders w userId)).map Prod.fst

end Rows

inductive FriendPresenceStatus where
  | ONLINE | QUESTING | OFFLINE
  deriving DecidableEq

structure FriendSummaryDto where
  id : Id
  username : String
  displayName : Option String
  avatarUrl : Option String
  level : ℕ
  xp : ℤ
  status : FriendPresenceStatus
  currentQuest : Option (Id × String)
  lastSeenAt : Option Time
  mutualQuestsCount : ℕ
  deriving DecidableEq

def parseFriendPresenceStatus (value : String) : FriendPresenceStatus :=
  if value = "QUESTING" then .QUESTING else if value = "ONLINE" then .ONLINE else .OFFLINE

def toSummary (row : FriendRow) : FriendSummaryDto where
  id := row.id
  username := row.username
  displayName := row.displayName
  avatarUrl := row.avatarUrl
  level := row.level
  xp := row.xp
  status := parseFriendPresenceStatus row.status
  currentQuest := row.currentQuestId.bind fun id =>
    (truthy row.currentQuestTitle).map fun title => (id, title)
  lastSeenAt := row.lastSeenAt
  mutualQuestsCount := row.mutualQuestsCount

inductive Stmt : Type → Type where
  -- `JwtStrategy.validate` finds the user of a request, which is noted; the status of the
  -- account is not in these tables, so that suspended users get in too
  | authenticate (userId : Id) : Stmt Time
  | touchLastSeen (userId : Id) : Stmt Unit
  | noteTouched (userId : Id) (arrived : Time) : Stmt Unit
  | listFriends (orders : FriendOrders) (userId : Id) : Stmt (List FriendRow)

def Stmt.exec {β : Type} : Stmt β → World → Except ApiError (β × List Write)
  | .authenticate userId, w =>
      if (w.social.users.find? userId).isNone then .error (.unauthorized "User not active")
      else .ok (w.clock, [.visit userId w.clock])
  | .touchLastSeen userId, w =>
      if (w.social.users.find? userId).isSome ∧ stale w.clock (w.lastSeenAt userId) then
        .ok ((), [.lastSeenAt userId w.clock])
      else .ok ((), [])
  | .noteTouched userId arrived, _ => .ok ((), [.touched userId arrived])
  | .listFriends orders userId, w => .ok (queryRows orders w userId, [])

-- Outside these requests time passes and the other tables change.
instance : Backend Stmt World Write Empty ApiError (ℕ × Social) where
  exec := Stmt.exec
  apply := World.apply
  locks _ := []
  happen change w := { w.change change.2 with clock := w.clock + change.1 }

instance : ReadCommitted.LawfulBackend Stmt where
  same l _ _ := l.elim
  same_refl l _ := l.elim
  same_trans {l} := l.elim
  same_apply {l} := l.elim
  same_happen l := l.elim

abbrev Request (α : Type) := Prog Stmt ApiError α

def touchLastSeen (userId : Id) : Request Unit := Prog.call (.touchLastSeen userId)

-- `void this.touchLastSeen(userId)`: the route goes on without it, as a request of its own,
-- and nobody catches what it throws.
def intercept (userId : Id) : Request Unit := do
  let arrived ← Prog.call (.authenticate userId)
  touchLastSeen userId
  Prog.call (.noteTouched userId arrived)

def listFriends (orders : FriendOrders) (userId : Id) : Request (List FriendSummaryDto) := do
  let rows ← Prog.call (.listFriends orders userId)
  return rows.map toSummary

end Presence

end SideQuest
