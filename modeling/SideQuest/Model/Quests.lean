import SideQuest.Model.Host

-- `QuestsService`: starting a quest, completing it and checking in at its waypoints.

namespace SideQuest

namespace QuestsService

def STREAK_WINDOW_HOURS : ℤ := 36

def STREAK_RESET_HOURS : ℤ := 48

-- The hours are compared in milliseconds.
def computeStreak (currentStreak : ℕ) (lastAt : Option Time) (now : Time) : ℕ :=
  match lastAt with
  | none => max 1 (if currentStreak = 0 then 1 else currentStreak)
  | some lastAt =>
      if now - lastAt ≤ STREAK_WINDOW_HOURS * (1000 * 60 * 60) then currentStreak
      else if now - lastAt ≤ STREAK_RESET_HOURS * (1000 * 60 * 60) then currentStreak + 1
      else 1

def pathDistanceMeters (host : Host) : List QuestLocation → ℚ
  | l :: l' :: rest =>
      host.haversineMeters l.coordinates l'.coordinates + pathDistanceMeters host (l' :: rest)
  | _ => 0

def sumPathDistanceMeters (host : Host) (locations : List QuestLocation) : ℚ :=
  pathDistanceMeters host (locations.insertionSort fun l l' => l.orderIndex ≤ l'.orderIndex)

def notStarted : ApiError := .badRequest "Quest must be started before it can be completed"

structure FinalizeOutcome where
  xpAwarded : ℤ
  previousLevel : ℕ
  newLevel : ℕ
  streakDays : ℕ
  completedAt : Time

-- What a finalization writes to the completion row.
def completedData (quest : Quest) (proof : Option CompletionProof) (completion : QuestCompletion)
    (now : Time) : QuestCompletionUpdate where
  status := some .COMPLETED
  completedAt := some now
  xpAwarded := some quest.xpReward
  durationMin := some (mathRound ((now - completion.startedAt : ℤ) / 60000))
  proof := proof

-- What it writes to the user row, from the row `user` it has read.
def rewardData (host : Host) (quest : QuestWithLocations) (user : User) (now : Time) :
    UserUpdate :=
  let newStreak := computeStreak user.streakDays user.lastQuestCompletedAt now
  { xp := .increment quest.quest.xpReward
    questsDone := .increment 1
    level := some (levelFromXp (user.xp + quest.quest.xpReward))
    streakDays := some newStreak
    longestStreakDays := some (max user.longestStreakDays newStreak)
    lastQuestCompletedAt := some now
    distanceWalkedM := .increment (mathRound (sumPathDistanceMeters host quest.locations)) }

def finalizeQuestCompletionTx (host : Host) (userId questId : Id) (quest : QuestWithLocations)
    (proof : Option CompletionProof) : InTransaction FinalizeOutcome := do
  let found ← tx (.userFindUnique userId)
  let user ← Tx.expect found (.notFound "User not found")
  let now ← tx .now
  let newStreak := computeStreak user.streakDays user.lastQuestCompletedAt now
  let previousLevel := levelFromXp user.xp
  let newLevel := levelFromXp (user.xp + quest.quest.xpReward)
  let completion ← tx (.completionFindUnique userId questId)
  let completion ← Tx.expect completion notStarted
  Tx.require (completion.status ≠ .COMPLETED) notStarted
  tx (.completionUpdate userId questId (completedData quest.quest proof completion now))
  let _ ← tx (.userUpdate userId (rewardData host quest user now))
  return ⟨quest.quest.xpReward, previousLevel, newLevel, newStreak, now⟩

def start (userId questId : Id) : Request Unit := do
  let quest ← prisma (.questFindById questId)
  let quest ← Prog.expect quest (.notFound "Quest not found")
  Prog.require (quest.quest.status = .PUBLISHED) (.badRequest "Quest is not available")
  let now ← prisma .now
  prisma (.completionUpsertStarted userId questId now)
  emit (.questStarted userId questId)

structure CompleteOutcome where
  xpAwarded : ℤ
  leveledUp : Bool
  newLevel : ℕ
  streakDays : ℕ

def complete (host : Host) (userId questId : Id) (proof : Option CompletionProof) :
    Request CompleteOutcome := do
  let quest ← prisma (.questFindById questId)
  let quest ← Prog.expect quest (.notFound "Quest not found")
  let active ← prisma (.completionFindUnique userId questId)
  let active ← Prog.expect active notStarted
  Prog.require (active.status ≠ .COMPLETED) notStarted
  let result ← Prog.transaction (finalizeQuestCompletionTx host userId questId quest proof)
  emit (.questCompleted userId questId result.xpAwarded result.completedAt)
  Prog.when (result.newLevel > result.previousLevel)
    (emit (.levelUp userId result.previousLevel result.newLevel))
  return ⟨result.xpAwarded, result.newLevel > result.previousLevel, result.newLevel,
    result.streakDays⟩

structure QuestCheckInBody where
  position : Coordinates
  accuracyM : Option ℕ := none

structure CheckInTxOutcome where
  httpStatus : ℕ
  questCompleted : Bool
  -- set when this check-in completed the quest
  fin : Option FinalizeOutcome

-- The transaction of `checkInLocation`.
def checkInTx (host : Host) (userId questId locationId : Id) (body : QuestCheckInBody)
    (quest : QuestWithLocations) : InTransaction CheckInTxOutcome := do
  let dup ← tx (.checkInFindUnique userId locationId)
  match dup with
  | some _ =>
      let c ← tx (.completionFindUnique userId questId)
      return ⟨200, c.map QuestCompletion.status = some .COMPLETED, none⟩
  | none =>
      tx (.checkInCreate userId questId locationId body.position body.accuracyM)
      tx (.completionUpdate userId questId { checkedInLocationIds := some locationId })
      let _ ← tx (.userUpdate userId { placesVisited := .increment 1 })
      let checkedCount ← tx (.checkInCount userId questId)
      if checkedCount ≥ quest.locations.length then
        let fin ← finalizeQuestCompletionTx host userId questId quest (some .checkIns)
        return ⟨201, true, some fin⟩
      else
        return ⟨201, false, none⟩

structure CheckInOutcome where
  httpStatus : ℕ
  stepCompleted : Bool
  questCompleted : Bool
  deriving DecidableEq

-- What happens once the request has found the place unvisited so far.
def checkInNew (host : Host) (userId questId locationId : Id) (body : QuestCheckInBody)
    (quest : QuestWithLocations) : Request CheckInOutcome := do
  let active ← prisma (.completionFindUnique userId questId)
  let notActive : ApiError := .badRequest "Start the quest before checking in at waypoints"
  let active ← Prog.expect active notActive
  Prog.require (active.status = .STARTED) notActive
  Prog.require (quest.locations.length ≠ 0) (.badRequest "This quest has no waypoints")
  let outcome ← Prog.transaction (checkInTx host userId questId locationId body quest)
  match outcome.fin with
  | some fin =>
      emit (.questCompleted userId questId fin.xpAwarded fin.completedAt)
      Prog.when (fin.newLevel > fin.previousLevel)
        (emit (.levelUp userId fin.previousLevel fin.newLevel))
  | none => pure ()
  Prog.when (outcome.httpStatus = 201) (emit (.questLocationCheckedIn userId questId locationId))
  return ⟨outcome.httpStatus, true, outcome.questCompleted⟩

def checkInLocation (host : Host) (userId questId locationId : Id) (body : QuestCheckInBody) :
    Request CheckInOutcome := do
  let quest ← prisma (.questFindById questId)
  let quest ← Prog.expect quest (.notFound "Quest not found")
  Prog.require (quest.quest.status = .PUBLISHED) (.badRequest "Quest is not available")
  let location ← prisma (.questLocationFindFirst locationId questId)
  let location ← Prog.expect location (.notFound "Location not found for this quest")
  let distanceM := host.haversineMeters body.position location.coordinates
  Prog.require (distanceM ≤ location.radiusM)
    (.conflict "You are outside the allowed radius for this waypoint" (some "OUT_OF_RANGE")
      (some (mathRound distanceM)))
  let existingCheckIn ← prisma (.checkInFindUnique userId locationId)
  match existingCheckIn with
  | some _ =>
      let row ← prisma (.completionFindUnique userId questId)
      return ⟨200, true, row.map QuestCompletion.status = some .COMPLETED⟩
  | none => checkInNew host userId questId locationId body quest

end QuestsService

end SideQuest
