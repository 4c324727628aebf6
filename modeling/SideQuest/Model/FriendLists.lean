import SideQuest.Model.Friendships
import SideQuest.Model.Feed

-- `FriendshipsService.listMine` and `listPendingIncoming`.

namespace SideQuest

structure FriendshipDto where
  id : Id
  requesterId : Id
  addresseeId : Id
  status : FriendshipStatus
  respondedAt : Option Time
  createdAt : Time
  deriving DecidableEq

def FriendshipDto.fromEntity (f : Friendship) : FriendshipDto :=
  ⟨f.id, f.requesterId, f.addresseeId, f.status, f.respondedAt, f.createdAt⟩

structure PendingFriendshipDto where
  id : Id
  requester : ParticipantSummaryDto
  createdAt : Time
  deriving DecidableEq

namespace FriendshipsService

-- `orderBy: { createdAt: 'desc' }`
def newestFriendship : OrderBy Friendship := ⟨Timeᵒᵈ, inferInstance, fun f => .toDual f.createdAt⟩

-- An undefined status is no condition.
def listForUser (db : QueryOrder newestFriendship) (w : World) (userId : Id)
    (status : Option FriendshipStatus) : List Friendship :=
  db.order (w.friendships.rows.filter fun f =>
    (f.requesterId = userId ∨ f.addresseeId = userId) ∧ status.all fun status => f.status = status)

def listMine (db : QueryOrder newestFriendship) (w : World) (userId : Id)
    (status : Option FriendshipStatus) : List FriendshipDto :=
  (listForUser db w userId status).map FriendshipDto.fromEntity

-- The requester comes with his row, which the foreign key has there. `avatarUrl` is the
-- column of that name.
def listPendingIncoming (db : QueryOrder newestFriendship) (avatarUrl : Id → Option String)
    (w : World) (userId : Id) : List PendingFriendshipDto :=
  (db.order (w.friendships.rows.filter fun f =>
    f.addresseeId = userId ∧ f.status = .PENDING)).filterMap fun row =>
      (w.users.find? row.requesterId).map fun requester =>
        { id := row.id
          requester :=
            { id := requester.id
              username := requester.username
              displayName := requester.displayName
              avatarUrl := avatarUrl requester.id
              level := requester.level }
          createdAt := row.createdAt }

end FriendshipsService

end SideQuest
