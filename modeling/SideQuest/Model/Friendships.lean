import SideQuest.Model.Host

-- `FriendshipsService`: requesting, accepting, blocking and removing.

namespace SideQuest

namespace FriendshipsService

-- `newId` is the CUID of the row that the request may create.
def request (requesterId addresseeId newId : Id) : Request Friendship := do
  Prog.require (requesterId ≠ addresseeId) (.badRequest "Cannot send a friend request to yourself")
  let existing ← prisma (.friendshipFindBetween requesterId addresseeId)
  Prog.require (existing.isNone = true) (.conflict "Friendship already exists")
  let now ← prisma .now
  let created ← prisma (.friendshipCreate { id := newId, requesterId, addresseeId, createdAt := now })
  emit (.friendRequestSent requesterId addresseeId created.id)
  return created

def accept (userId friendshipId : Id) : Request Friendship := do
  let f ← prisma (.friendshipFindUnique friendshipId)
  let f ← Prog.expect f (.notFound "Friendship not found")
  Prog.require (f.addresseeId = userId) (.forbidden "Only the addressee can accept")
  Prog.require (f.status = .PENDING) (.badRequest "Friendship is not pending")
  let now ← prisma .now
  let updated ← prisma (.friendshipUpdateStatus friendshipId .ACCEPTED now)
  emit (.friendRequestAccepted f.requesterId f.addresseeId friendshipId)
  return updated

def block (userId otherUserId newId : Id) : Request Friendship := do
  let found ← prisma (.friendshipFindBetween userId otherUserId)
  let f ← match found with
    | some f => pure f
    | none => do
        let now ← prisma .now
        prisma (.friendshipCreate
          { id := newId, requesterId := userId, addresseeId := otherUserId, createdAt := now })
  let now ← prisma .now
  prisma (.friendshipUpdateStatus f.id .BLOCKED now)

def remove (userId friendshipId : Id) : Request Unit := do
  let f ← prisma (.friendshipFindUnique friendshipId)
  let f ← Prog.expect f (.notFound "Friendship not found")
  Prog.require (f.requesterId = userId ∨ f.addresseeId = userId) (.forbidden "Not allowed")
  let _ ← prisma (.friendshipDelete friendshipId)
  return ()

end FriendshipsService

end SideQuest
