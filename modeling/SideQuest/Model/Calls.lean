import SideQuest.Model.World
import SideQuest.Lib.ReadCommitted

-- The Prisma calls of the services: what each answers and writes.

namespace SideQuest

-- A quest as `QUEST_INCLUDE` loads it.
structure QuestWithLocations where
  quest : Quest
  locations : List QuestLocation

-- The Prisma calls of the modelled services, with `new Date()` and the event bus.
inductive Stmt : Type → Type where
  | now : Stmt Time
  | emit (event : AppEvent) : Stmt Unit
  | userFindUnique (id : Id) : Stmt (Option User)
  | userFindByEmail (email : String) : Stmt (Option User)
  | userFindByUsername (username : String) : Stmt (Option User)
  | userCreate (row : User) : Stmt User
  | userUpdate (id : Id) (data : UserUpdate) : Stmt User
  -- `updateMany({ where: { streakDays: { gt: 0 }, OR: [{ lastQuestCompletedAt: null },
  --   { lastQuestCompletedAt: { lt: cutoff } }] }, data: { streakDays: 0 } })`
  | userResetStreaks (cutoff : Time) : Stmt ℕ
  | questFindById (id : Id) : Stmt (Option QuestWithLocations)
  | questLocationFindFirst (id questId : Id) : Stmt (Option QuestLocation)
  | checkInFindUnique (userId locationId : Id) : Stmt (Option QuestLocationCheckIn)
  | checkInCreate (userId questId locationId : Id) (position : Coordinates)
      (accuracyM : Option ℕ) : Stmt Unit
  | checkInCount (userId questId : Id) : Stmt ℕ
  | completionFindUnique (userId questId : Id) : Stmt (Option QuestCompletion)
  | completionUpsertStarted (userId questId : Id) (startedAt : Time) : Stmt Unit
  | completionUpdate (userId questId : Id) (data : QuestCompletionUpdate) : Stmt Unit
  | completionCountCompleted (userId : Id) : Stmt ℕ
  | completionCountCompletedIn (userId : Id) (categorySlug : String) : Stmt ℕ
  -- the location ids of each completed quest of the user
  | completionFindCompletedLocations (userId : Id) : Stmt (List (List Id))
  | achievementFindMany : Stmt (List Achievement)
  | userAchievementFindUnique (userId achievementId : Id) : Stmt (Option UserAchievement)
  | userAchievementCreate (userId achievementId : Id) (progress : ℤ) : Stmt Unit
  | userAchievementUpdateProgress (userId achievementId : Id) (progress : ℤ) : Stmt Unit
  | userAchievementUpsertUnlocked (userId achievementId : Id) (unlockedAt : Time)
      (progress : ℤ) : Stmt Unit
  | friendshipCountAccepted (userId : Id) : Stmt ℕ
  | friendshipFindBetween (a b : Id) : Stmt (Option Friendship)
  | friendshipFindUnique (id : Id) : Stmt (Option Friendship)
  | friendshipCreate (row : Friendship) : Stmt Friendship
  | friendshipUpdateStatus (id : Id) (status : FriendshipStatus) (respondedAt : Time) :
      Stmt Friendship
  | friendshipDelete (id : Id) : Stmt Friendship
  | inviteFindUnique (id : Id) : Stmt (Option Invite)
  | inviteFindByToken (token : String) : Stmt (Option Invite)
  | inviteCountSince (inviterId : Id) (since : Time) : Stmt ℕ
  | inviteCreate (id : Id) (token email : String) (inviterId : Id) : Stmt Invite
  -- `update({ where: { id }, data: { status: CANCELLED } })`
  | inviteCancel (id : Id) : Stmt Unit
  -- `updateMany({ where: { inviterId, email, status: PENDING }, data: { status: CANCELLED } })`
  | inviteCancelPending (inviterId : Id) (email : String) : Stmt ℕ
  -- `updateMany({ where: { id, status: PENDING, token }, data: { status: ACCEPTED, … } })`
  | inviteClaim (id : Id) (token : String) (inviteeId : Id) (acceptedAt : Time) : Stmt ℕ

def User.streakStale (u : User) (cutoff : Time) : Bool :=
  u.streakDays > 0 ∧ u.lastQuestCompletedAt.all fun lastAt => lastAt < cutoff

-- A call that only reads.
def ask {β : Type} (answer : β) : Except ApiError (β × List Write) := .ok (answer, [])

def fail {β : Type} (e : PrismaError) : Except ApiError (β × List Write) := .error (.prisma e)

-- What a call answers and writes on the data it sees. Creates check the unique
-- columns and the foreign keys, and `update` and `delete` need their row.
def Stmt.exec {β : Type} : Stmt β → World → Except ApiError (β × List Write)
  | .now, w => ask w.clock
  | .emit event, _ => .ok ((), [.emit event])
  | .userFindUnique id, w => ask (w.users.find? id)
  | .userFindByEmail email, w => ask (w.userByEmail email)
  | .userFindByUsername username, w => ask (w.userByUsername username)
  | .userCreate row, w =>
      if (w.users.find? row.id).isSome ∨ (w.userByEmail row.email).isSome ∨
          (w.userByUsername row.username).isSome then fail .P2002
      else .ok (row, [.userCreate row])
  | .userUpdate id d, w =>
      match w.users.find? id with
      | some u => .ok (d.apply u, [.userUpdate id d])
      | none => fail .P2025
  | .userResetStreaks cutoff, w =>
      let stale := w.users.rows.filter fun u => u.streakStale cutoff
      .ok (stale.length, stale.map fun u => .userUpdate u.id { streakDays := some 0 })
  | .questFindById id, w => ask ((w.quests.find? id).map fun q => ⟨q, w.locationsOf id⟩)
  | .questLocationFindFirst id questId, w =>
      ask ((w.questLocations.find? id).filter fun l => l.questId = questId)
  | .checkInFindUnique u l, w => ask (w.checkIns.find? (u, l))
  | .checkInCreate u q l position accuracyM, w =>
      if (w.checkIns.find? (u, l)).isSome then fail .P2002
      else if (w.users.find? u).isNone ∨ (w.quests.find? q).isNone ∨
          (w.questLocations.find? l).isNone then fail .P2003
      else .ok ((), [.checkInCreate
        ⟨u, q, l, position.latitude, position.longitude, accuracyM, w.clock⟩])
  | .checkInCount u q, w => ask (w.checkIns.count fun c => c.userId = u ∧ c.questId = q)
  | .completionFindUnique u q, w => ask (w.completions.find? (u, q))
  | .completionUpsertStarted u q startedAt, w =>
      match w.completions.find? (u, q) with
      | some _ => .ok ((), [.completionUpdate u q
          { status := some .STARTED, startedAt := some startedAt }])
      | none =>
          if (w.users.find? u).isNone ∨ (w.quests.find? q).isNone then fail .P2003
          else .ok ((), [.completionCreate { userId := u, questId := q, startedAt := w.clock }])
  | .completionUpdate u q d, w =>
      match w.completions.find? (u, q) with
      | some _ => .ok ((), [.completionUpdate u q d])
      | none => fail .P2025
  | .completionCountCompleted u, w =>
      ask (w.completions.count fun c => c.userId = u ∧ c.status = .COMPLETED)
  | .completionCountCompletedIn u slug, w =>
      ask (w.completions.count fun c => c.userId = u ∧ c.status = .COMPLETED ∧
        ((w.quests.find? c.questId).bind Quest.categorySlug) = some slug)
  | .completionFindCompletedLocations u, w =>
      ask ((w.completions.rows.filter fun c => c.userId = u ∧ c.status = .COMPLETED).map
        fun c => (w.locationsOf c.questId).map QuestLocation.id)
  | .achievementFindMany, w => ask w.achievements.rows
  | .userAchievementFindUnique u a, w => ask (w.userAchievements.find? (u, a))
  | .userAchievementCreate u a progress, w =>
      if (w.userAchievements.find? (u, a)).isSome then fail .P2002
      else if (w.users.find? u).isNone ∨ (w.achievements.find? a).isNone then fail .P2003
      else .ok ((), [.userAchievementCreate
        { userId := u, achievementId := a, progress := progress }])
  | .userAchievementUpdateProgress u a progress, w =>
      match w.userAchievements.find? (u, a) with
      | some _ => .ok ((), [.userAchievementUpdate u a { progress := some progress }])
      | none => fail .P2025
  | .userAchievementUpsertUnlocked u a unlockedAt progress, w =>
      match w.userAchievements.find? (u, a) with
      | some _ => .ok ((), [.userAchievementUpdate u a
          { unlockedAt := some unlockedAt, progress := some progress }])
      | none =>
          if (w.users.find? u).isNone ∨ (w.achievements.find? a).isNone then fail .P2003
          else .ok ((), [.userAchievementCreate
            { userId := u, achievementId := a, unlockedAt := some unlockedAt,
              progress := progress }])
  | .friendshipCountAccepted u, w =>
      ask (w.friendships.count fun f =>
        f.status = .ACCEPTED ∧ (f.requesterId = u ∨ f.addresseeId = u))
  | .friendshipFindBetween a b, w => ask (w.friendshipBetween a b)
  | .friendshipFindUnique id, w => ask (w.friendships.find? id)
  | .friendshipCreate row, w =>
      if (w.friendships.find? row.id).isSome ∨
          (w.friendshipOfPair row.requesterId row.addresseeId).isSome then fail .P2002
      else if (w.users.find? row.requesterId).isNone ∨ (w.users.find? row.addresseeId).isNone then
        fail .P2003
      else .ok (row, [.friendshipCreate row])
  | .friendshipUpdateStatus id status respondedAt, w =>
      match w.friendships.find? id with
      | some f => .ok (FriendshipUpdate.apply ⟨status, respondedAt⟩ f,
          [.friendshipUpdate id ⟨status, respondedAt⟩])
      | none => fail .P2025
  | .friendshipDelete id, w =>
      match w.friendships.find? id with
      | some f => .ok (f, [.friendshipDelete f])
      | none => fail .P2025
  | .inviteFindUnique id, w => ask (w.invites.find? id)
  | .inviteFindByToken token, w => ask (w.inviteByToken token)
  | .inviteCountSince inviterId since, w =>
      ask (w.invites.count fun i => i.inviterId = inviterId ∧ since ≤ i.sentAt)
  | .inviteCreate id token email inviterId, w =>
      if (w.invites.find? id).isSome ∨ (w.inviteByToken token).isSome then fail .P2002
      else if (w.users.find? inviterId).isNone then fail .P2003
      else
        let row : Invite := { id, token, inviterId, email, sentAt := w.clock }
        .ok (row, [.inviteCreate row])
  | .inviteCancel id, w =>
      match w.invites.find? id with
      | some _ => .ok ((), [.inviteUpdate id { status := .CANCELLED }])
      | none => fail .P2025
  | .inviteCancelPending inviterId email, w =>
      let pending := w.invites.rows.filter fun i =>
        i.inviterId = inviterId ∧ i.email = email ∧ i.status = .PENDING
      .ok (pending.length, pending.map fun i => .inviteUpdate i.id { status := .CANCELLED })
  | .inviteClaim id token inviteeId acceptedAt, w =>
      match (w.invites.find? id).filter fun i => i.status = .PENDING ∧ i.token = token with
      | some _ => .ok (1, [.inviteUpdate id
          { status := .ACCEPTED, inviteeId := some inviteeId, acceptedAt := some acceptedAt }])
      | none => ask 0

-- Outside the requests only time passes.
instance : Backend Stmt World Write Lock ApiError ℕ where
  exec := Stmt.exec
  apply := World.apply
  locks := Write.locks
  happen elapsed w := { w with clock := w.clock + elapsed }

end SideQuest
