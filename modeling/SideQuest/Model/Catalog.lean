import SideQuest.Model.QuestEdits
import SideQuest.Model.Feed
import SideQuest.Model.Host
import SideQuest.Lib.Interleaving

-- The catalogue of the quests as a database of its own: the full rows with what
-- `QUEST_INCLUDE` loads for them, and the requests of `QuestsService` that write them.

namespace SideQuest

structure AchievementSummaryDto where
  id : Id
  slug : String
  name : String
  iconUrl : Option String := none
  xpBonus : ℤ := 0
  deriving DecidableEq

structure CategoryRow where
  id : Id
  slug : String
  name : String
  iconUrl : Option String := none
  coverImageUrl : Option String := none
  colorHex : Option String := none
  deriving DecidableEq

structure QuestCategoryDto extends CategoryRow where
  questCount : ℕ
  deriving DecidableEq

def QuestCategoryDto.fromEntity (c : CategoryRow) (questCount : ℕ) : QuestCategoryDto :=
  { c with questCount }

structure Waypoint where
  id : Id
  name : Option String := none
  address : Option String := none
  latitude : ℚ
  longitude : ℚ
  radiusM : ℤ := 50
  orderIndex : ℤ := 0
  deriving DecidableEq

-- A quest with its locations in the order of `orderIndex`.
structure CatalogQuest where
  id : Id
  slug : String
  title : String
  summary : Option String := none
  description : String
  difficulty : QuestDifficulty := .EASY
  status : QuestStatus := .DRAFT
  xpReward : ℤ := 50
  estimatedDurationMin : Option ℕ := none
  imageUrl : Option String := none
  coverImageUrl : Option String := none
  authorId : Option Id := none
  categoryId : Option Id := none
  businessId : Option Id := none
  tags : List String := []
  ratingAvg : Option ℚ := none
  ratingCount : ℕ := 0
  publishedAt : Option Time := none
  startsAt : Option Time := none
  endsAt : Option Time := none
  featuredAt : Option Time := none
  createdAt : Time
  updatedAt : Time
  locations : List Waypoint
  deriving DecidableEq

-- What else `QUEST_INCLUDE` loads: the count of the completions, the users of the six
-- that were started last, and the achievements that the quest rewards.
structure Enrichment where
  completionCount : ℕ := 0
  completions : List ParticipantSummaryDto := []
  rewardAchievements : List AchievementSummaryDto := []
  deriving DecidableEq

structure QuestWithEnrichment extends CatalogQuest, Enrichment where
  -- with the count of its published quests
  category : Option (CategoryRow × ℕ)
  deriving DecidableEq

structure QuestLocationDto extends Waypoint where
  distanceM : Option ℤ := none
  isCompleted : Option Bool := none
  deriving DecidableEq

structure QuestRewardsDto where
  xp : ℤ
  achievements : List AchievementSummaryDto
  deriving DecidableEq

structure QuestDto where
  id : Id
  slug : String
  title : String
  summary : Option String
  description : String
  difficulty : QuestDifficulty
  status : QuestStatus
  xpReward : ℤ
  estimatedDurationMin : Option ℕ
  imageUrl : Option String
  coverImageUrl : Option String
  categoryId : Option Id
  businessId : Option Id
  authorId : Option Id
  publishedAt : Option Time
  createdAt : Time
  updatedAt : Time
  locations : List QuestLocationDto
  tags : List String
  rating : Option ℚ
  ratingCount : ℕ
  participantCount : ℕ
  participants : List ParticipantSummaryDto
  category : Option QuestCategoryDto
  rewards : QuestRewardsDto
  deriving DecidableEq

namespace QuestsService

def locationToDto (host : Host) (distanceFrom : Option Coordinates)
    (checkedLocationIds : Option (List Id)) (loc : Waypoint) : QuestLocationDto :=
  { loc with
    distanceM := distanceFrom.map fun from' =>
      mathRound (host.haversineMeters from' ⟨loc.latitude, loc.longitude⟩)
    isCompleted := checkedLocationIds.map fun checked => loc.id ∈ checked }

def toDto (host : Host) (quest : QuestWithEnrichment) (distanceFrom : Option Coordinates)
    (checkedLocationIds : Option (List Id)) : QuestDto where
  id := quest.id
  slug := quest.slug
  title := quest.title
  summary := quest.summary
  description := quest.description
  difficulty := quest.difficulty
  status := quest.status
  xpReward := quest.xpReward
  estimatedDurationMin := quest.estimatedDurationMin
  imageUrl := quest.imageUrl
  coverImageUrl := quest.coverImageUrl
  categoryId := quest.categoryId
  businessId := quest.businessId
  authorId := quest.authorId
  publishedAt := quest.publishedAt
  createdAt := quest.createdAt
  updatedAt := quest.updatedAt
  locations := quest.locations.map (locationToDto host distanceFrom checkedLocationIds)
  tags := quest.tags
  rating := quest.ratingAvg
  ratingCount := quest.ratingCount
  participantCount := quest.completionCount
  participants := quest.completions
  category := quest.category.map fun c => .fromEntity c.1 c.2
  rewards := ⟨quest.xpReward, quest.rewardAchievements⟩

end QuestsService

end SideQuest
