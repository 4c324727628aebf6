import SideQuest.Model.Host
import Mathlib.Data.List.Dedup

-- `AchievementsService`: the criteria of an achievement, and the loop that unlocks.

namespace SideQuest

-- `Reflect.get(value, name)` where `value` is an object.
def Json.get (value : Json) (name : String) : Option Json :=
  match value with
  | .obj fields => (fields.find? fun f => f.1 = name).map Prod.snd
  | _ => none

def Json.getNumber (value : Json) (name : String) : Option ℚ :=
  match value.get name with
  | some (.num q) => some q
  | _ => none

def Json.getString (value : Json) (name : String) : Option String :=
  match value.get name with
  | some (.str s) => some s
  | _ => none

structure AchievementCriteria where
  minQuests : Option ℚ
  minXp : Option ℚ
  minLevel : Option ℚ
  minLocations : Option ℚ
  minFriends : Option ℚ
  minStreakDays : Option ℚ
  categorySlug : Option String

namespace AchievementsService

def parseCriteria (value : Json) : AchievementCriteria where
  minQuests := value.getNumber "minQuests"
  minXp := value.getNumber "minXp"
  minLevel := value.getNumber "minLevel"
  minLocations := value.getNumber "minLocations"
  minFriends := value.getNumber "minFriends"
  minStreakDays := value.getNumber "minStreakDays"
  categorySlug := value.getString "categorySlug"

structure Evaluation where
  earned : Bool
  progress : ℤ

-- A threshold that counts something: reached or not, and how far.
def Evaluation.ofCount (minimum : ℚ) (n : ℕ) : Evaluation := ⟨minimum ≤ n, n⟩

def notEarned : Evaluation := ⟨false, 0⟩

def evaluateWithProgress (achievement : Achievement) (userId : Id) : Request Evaluation := do
  let criteria := parseCriteria achievement.criteria
  match achievement.type with
  | .QUEST_COUNT =>
      match criteria.minQuests with
      | none => return notEarned
      | some minQuests =>
          let completed ← prisma (.completionCountCompleted userId)
          return .ofCount minQuests completed
  | .XP_THRESHOLD =>
      let user ← prisma (.userFindUnique userId)
      match user with
      | none => return notEarned
      | some user =>
          let reached (minimum : Option ℚ) (value : ℤ) : Bool := minimum.any fun m => m ≤ (value : ℚ)
          return ⟨reached criteria.minXp user.xp || reached criteria.minLevel (levelFromXp user.xp),
            if criteria.minXp.isSome then user.xp else levelFromXp user.xp⟩
  | .CATEGORY_EXPLORER =>
      match criteria.categorySlug, criteria.minQuests with
      | some slug, some minQuests =>
          -- an empty slug is falsy
          if slug = "" then return notEarned
          else
            let completed ← prisma (.completionCountCompletedIn userId slug)
            return .ofCount minQuests completed
      | _, _ => return notEarned
  | .LOCATION_VISITS =>
      match criteria.minLocations with
      | none => return notEarned
      | some minLocations =>
          let rows ← prisma (.completionFindCompletedLocations userId)
          return .ofCount minLocations rows.flatten.dedup.length
  | .SOCIAL =>
      match criteria.minFriends with
      | none => return notEarned
      | some minFriends =>
          let friends ← prisma (.friendshipCountAccepted userId)
          return .ofCount minFriends friends
  | .STREAK =>
      match criteria.minStreakDays with
      | none => return notEarned
      | some minStreakDays =>
          let user ← prisma (.userFindUnique userId)
          match user with
          | none => return notEarned
          | some user => return .ofCount minStreakDays user.streakDays
  | .CUSTOM => return notEarned

-- The transaction of `unlock`.
def unlockTx (userId : Id) (achievement : Achievement) : InTransaction Unit := do
  let now ← tx .now
  tx (.userAchievementUpsertUnlocked userId achievement.id now (achievement.targetValue.getD 0))
  if achievement.xpBonus > 0 then
    let user ← tx (.userUpdate userId { xp := .increment achievement.xpBonus })
    let _ ← tx (.userUpdate userId { level := some (levelFromXp user.xp) })
    return ()
  else
    return ()

def unlock (userId : Id) (achievement : Achievement) : Request Unit := do
  let before ← prisma (.userFindUnique userId)
  let previousLevel := (before.map User.level).getD MIN_LEVEL
  Prog.transaction (unlockTx userId achievement)
  emit (.achievementUnlocked userId achievement.id achievement.slug)
  if achievement.xpBonus > 0 then
    let after ← prisma (.userFindUnique userId)
    let newLevel := (after.map User.level).getD previousLevel
    Prog.when (newLevel > previousLevel) (emit (.levelUp userId previousLevel newLevel))
  else
    return ()

-- One round of the loop over the definitions.
def evaluateOne (userId : Id) (achievement : Achievement) : Request Unit := do
  let existing ← prisma (.userAchievementFindUnique userId achievement.id)
  if (existing.bind UserAchievement.unlockedAt).isSome then
    return ()
  else
    let result ← evaluateWithProgress achievement userId
    match existing with
    | some existing =>
        if result.earned then unlock userId achievement
        else
          Prog.when (result.progress ≠ existing.progress)
            (prisma (.userAchievementUpdateProgress userId achievement.id result.progress))
    | none =>
        if result.earned then unlock userId achievement
        else
          Prog.when (result.progress > 0)
            (prisma (.userAchievementCreate userId achievement.id result.progress))

def evaluateEach (userId : Id) : List Achievement → Request Unit
  | [] => return ()
  | achievement :: rest => do
      evaluateOne userId achievement
      evaluateEach userId rest

def evaluateForUser (userId : Id) : Request Unit := do
  let definitions ← prisma .achievementFindMany
  evaluateEach userId definitions

-- The listeners of `onModuleInit`. Their type guards let through every event that the
-- services emit.
def listener : AppEvent → Request Unit
  | .questCompleted userId _ _ _ => evaluateForUser userId
  | .questLocationCheckedIn userId _ _ => evaluateForUser userId
  | .friendRequestAccepted requesterId addresseeId _ => do
      evaluateForUser requesterId
      evaluateForUser addresseeId
  | _ => return ()

end AchievementsService

end SideQuest
