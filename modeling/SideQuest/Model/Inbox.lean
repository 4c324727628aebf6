import SideQuest.Model.Notifications
import SideQuest.Lib.Interleaving

-- The notifications of the users as a database of their own: `NotificationsService` with
-- its repository, and what `NotificationsGateway` emits to the rooms of the users.

namespace SideQuest

deriving instance DecidableEq for NotificationDto

namespace NotificationsGateway

def roomForUser (userId : String) : String := "user:" ++ userId

end NotificationsGateway

namespace Inbox

open NotificationsService NotificationsGateway

structure World where
  clock : Time
  -- the columns of the users that `loadParticipantSummary` selects
  users : Table FromUser.id
  notifications : Table NotificationRow.id
  -- what has been emitted, with the room
  pushed : List (String × NotificationDto)

def NotificationRow.read (readAt : Time) (n : NotificationRow) : NotificationRow :=
  { n with readAt := some readAt }

theorem NotificationRow.id_read (readAt : Time) (n : NotificationRow) :
    (NotificationRow.read readAt n).id = n.id := rfl

inductive Write where
  | notificationCreate (row : NotificationRow)
  | notificationUpdate (id : String) (readAt : Time)
  | push (room : String) (payload : NotificationDto)

inductive Lock where
  | notification (id : String)
  deriving DecidableEq

def Write.locks : Write → List Lock
  | .notificationCreate row => [.notification row.id]
  | .notificationUpdate id _ => [.notification id]
  | .push _ _ => []

namespace World

def apply (w : World) : Write → World
  | .notificationCreate row => { w with notifications := w.notifications.insert row }
  | .notificationUpdate id readAt =>
      { w with
        notifications := w.notifications.modify id (NotificationRow.read readAt)
          (NotificationRow.id_read readAt) }
  | .push room payload => { w with pushed := w.pushed ++ [(room, payload)] }

-- `where: { userId, readAt: null }`
def unread (w : World) (userId : String) : ℕ :=
  w.notifications.count fun n => n.userId = userId ∧ n.readAt = none

end World

-- The calls of `NotificationsRepository`, the user that a listener loads, and an emit of
-- the gateway.
inductive Stmt : Type → Type where
  | userFindUnique (id : String) : Stmt (Option FromUser)
  | notificationCreate (input : SendInput) (id : String) : Stmt NotificationRow
  | notificationMarkRead (id userId : String) : Stmt ℕ
  | notificationMarkAllRead (userId : String) : Stmt ℕ
  | notificationCountUnread (userId : String) : Stmt ℕ
  | push (room : String) (payload : NotificationDto) : Stmt Unit

-- The updates of the rows that `updateMany` finds.
def markRows (w : World) (p : NotificationRow → Bool) : Except ApiError (ℕ × List Write) :=
  let found := w.notifications.rows.filter p
  .ok (found.length, found.map fun n => .notificationUpdate n.id w.clock)

def Stmt.exec {β : Type} : Stmt β → World → Except ApiError (β × List Write)
  | .userFindUnique id, w => .ok (w.users.find? id, [])
  | .notificationCreate input id, w =>
      if (w.notifications.find? id).isSome then .error (.prisma .P2002)
      -- `user: { connect: { id } }`
      else if (w.users.find? input.userId).isNone then .error (.prisma .P2025)
      else .ok (create input id w.clock, [.notificationCreate (create input id w.clock)])
  | .notificationMarkRead id userId, w => markRows w fun n => n.id = id ∧ n.userId = userId
  | .notificationMarkAllRead userId, w => markRows w fun n => n.userId = userId ∧ n.readAt = none
  | .notificationCountUnread userId, w => .ok (w.unread userId, [])
  | .push room payload, _ => .ok ((), [.push room payload])

-- Outside the requests only time passes.
instance : Backend Stmt World Write Lock ApiError ℕ where
  exec := Stmt.exec
  apply := World.apply
  locks := Write.locks
  happen elapsed w := { w with clock := w.clock + elapsed }

def Lock.same : Lock → World → World → Prop
  | .notification id, w, w' => w'.notifications.find? id = w.notifications.find? id

theorem Lock.same_apply {l : Lock} (w : World) {wr : Write} (h : l ∉ wr.locks) :
    l.same w (w.apply wr) := by
  obtain ⟨id⟩ := l
  cases wr with
  | notificationCreate row =>
      exact Table.find?_insert_ne _ fun he => h (he ▸ List.mem_cons_self)
  | notificationUpdate id' readAt =>
      exact Table.find?_modify_ne _ _ (NotificationRow.id_read readAt)
        fun he => h (he ▸ List.mem_cons_self)
  | push room payload => rfl

instance : ReadCommitted.LawfulBackend Stmt where
  same := Lock.same
  same_refl l _ := by cases l; rfl
  same_trans {l _ _ _} h h' := by
    cases l
    exact h'.trans h
  same_apply := Lock.same_apply
  same_happen l _ _ := by cases l; rfl

abbrev Request (α : Type) := Prog Stmt ApiError α

abbrev prisma {α : Type} (s : Stmt α) : Request α := Prog.call s

def pushToUser (userId : String) (payload : NotificationDto) : Request Unit :=
  Prog.call (.push (roomForUser userId) payload)

-- `id` is the CUID of the new row.
def send (input : SendInput) (id : String) : Request NotificationDto := do
  let created ← prisma (.notificationCreate input id)
  let dto := NotificationDto.fromEntity created
  pushToUser input.userId dto
  return dto

-- The user that a listener loads before it sends.
def loaded : NotifyingEvent → Json → Option String
  | .FriendRequestSent, payload => payload.getString "requesterId"
  | .FriendRequestAccepted, payload => payload.getString "addresseeId"
  | _, _ => none

def loadParticipantSummary : Option String → Request (Option FromUser)
  | some userId => prisma (.userFindUnique userId)
  | none => return none

-- What a listener sends; its guard, or a payload it cannot read, ends it.
def sendTo (id : String) : Option SendInput → Request Unit
  | some input => (send input id).void
  | none => return ()

-- The listener of an event. What it throws is logged, or ends it unhandled.
def onEvent (numberText : ℚ → String) (event : NotifyingEvent) (payload : Json) (id : String) :
    Request Unit := do
  if event.guard payload then
    let fromUser ← loadParticipantSummary (loaded event payload)
    sendTo id (listener numberText (fun _ => fromUser) event payload)
  else
    return ()

def countUnread (userId : String) : Request ℕ := prisma (.notificationCountUnread userId)

def markRead (id userId : String) : Request Unit := (prisma (.notificationMarkRead id userId)).void

def markAllRead (userId : String) : Request Unit := (prisma (.notificationMarkAllRead userId)).void

end Inbox

end SideQuest
