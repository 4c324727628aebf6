import SideQuest.Lib.Double
import SideQuest.Model.Achievements

-- `UsersService.getStats`, the numbers on a profile, and the list of the achievements page.

namespace SideQuest

def xpForLevel (level : ℕ) : ℤ := 100 * ((max MIN_LEVEL level - 1 : ℕ) : ℤ) ^ 2

structure LevelProgress where
  level : ℕ
  currentXp : ℤ
  xpForCurrentLevel : ℤ
  xpForNextLevel : ℤ
  xpIntoLevel : ℤ
  xpToNextLevel : ℤ
  progressRatio : ℚ

def progressFromXp (xp : ℤ) : LevelProgress :=
  let safeXp := max 0 xp
  let level := levelFromXp safeXp
  let xpForCurrentLevel := xpForLevel level
  let xpForNextLevel := xpForLevel (level + 1)
  let intoLevel := safeXp - xpForCurrentLevel
  let span := max 1 (xpForNextLevel - xpForCurrentLevel)
  { level
    currentXp := safeXp
    xpForCurrentLevel
    xpForNextLevel
    xpIntoLevel := intoLevel
    xpToNextLevel := max 0 (xpForNextLevel - safeXp)
    progressRatio := min 1 ((intoLevel : ℚ) / span) }

namespace UsersService

structure CompletionBreakdown where
  started : ℕ
  completed : ℕ
  abandoned : ℕ
  expired : ℕ

structure CategoryBreakdownItem where
  categorySlug : String
  categoryName : String
  completed : ℕ

structure UserStats where
  userId : Id
  level : ℕ
  currentXp : ℤ
  xpForCurrentLevel : ℤ
  xpForNextLevel : ℤ
  xpIntoLevel : ℤ
  xpToNextLevel : ℤ
  progressRatio : ℚ
  questsDone : ℕ
  achievementsUnlocked : ℕ
  friendsCount : ℕ
  streakDays : ℕ
  longestStreakDays : ℕ
  placesVisited : ℕ
  distanceWalkedKm : ℚ
  completions : CompletionBreakdown
  byCategory : List CategoryBreakdownItem

-- One more completed quest of a category; a category that is new comes last.
def countCategory (categoryName : String → String) (counters : List CategoryBreakdownItem)
    (slug : String) : List CategoryBreakdownItem :=
  if counters.any fun c => c.categorySlug = slug then
    counters.map fun c => if c.categorySlug = slug then { c with completed := c.completed + 1 } else c
  else counters ++ [⟨slug, categoryName slug, 1⟩]

-- `categoryName` is the name in the row of the category. The kilometres are rounded in
-- exact arithmetic.
def getStats (categoryName : String → String) (w : World) (userId : Id) :
    Except ApiError UserStats :=
  match w.users.find? userId with
  | none => .error (.notFound "User not found")
  | some user =>
      let progress := progressFromXp user.xp
      let count (status : QuestCompletionStatus) : ℕ :=
        w.completions.count fun c => c.userId = userId ∧ c.status = status
      let byCategoryRaw := (w.completions.rows.filter fun c =>
        c.userId = userId ∧ c.status = .COMPLETED).filterMap fun c =>
          (w.quests.find? c.questId).bind Quest.categorySlug
      let counters := byCategoryRaw.foldl (countCategory categoryName) []
      .ok
        { userId := user.id
          level := progress.level
          currentXp := progress.currentXp
          xpForCurrentLevel := progress.xpForCurrentLevel
          xpForNextLevel := progress.xpForNextLevel
          xpIntoLevel := progress.xpIntoLevel
          xpToNextLevel := progress.xpToNextLevel
          progressRatio := progress.progressRatio
          questsDone := user.questsDone
          achievementsUnlocked := w.userAchievements.count fun a => a.userId = userId
          friendsCount := w.friendships.count fun f =>
            f.status = .ACCEPTED ∧ (f.requesterId = userId ∨ f.addresseeId = userId)
          streakDays := user.streakDays
          longestStreakDays := user.longestStreakDays
          placesVisited := user.placesVisited
          distanceWalkedKm :=
            let km := Double.round (user.distanceWalkedM / 1000)
            Double.round (mathRound (Double.round (km * 100)) / 100)
          completions := ⟨count .STARTED, count .COMPLETED, count .ABANDONED, count .EXPIRED⟩
          byCategory := counters.insertionSort fun a b => b.completed ≤ a.completed }

end UsersService

namespace AchievementsService

structure AchievementProgress where
  current : ℤ
  target : ℤ

structure UserAchievementDto where
  id : Id
  slug : String
  type : AchievementType
  xpBonus : ℤ
  unlockedAt : Option Time
  progress : Option AchievementProgress

-- One entry for each definition, with the row that the user has for it, if any.
def listForUser (w : World) (userId : Id) : List UserAchievementDto :=
  let userRows := w.userAchievements.rows.filter fun a => a.userId = userId
  w.achievements.rows.map fun definition =>
    let ua := userRows.find? fun a => a.achievementId = definition.id
    let isUnlocked := (ua.bind UserAchievement.unlockedAt).isSome
    { id := definition.id
      slug := definition.slug
      type := definition.type
      xpBonus := definition.xpBonus
      unlockedAt := ua.bind UserAchievement.unlockedAt
      progress :=
        if isUnlocked then none
        else definition.targetValue.map fun target =>
          { current := (ua.map UserAchievement.progress).getD 0, target } }

end AchievementsService

end SideQuest
