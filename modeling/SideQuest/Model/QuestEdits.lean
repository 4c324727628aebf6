import SideQuest.Model.Quests
import SideQuest.Model.Listings

-- `QuestsService.update`: what authors and curators change on a quest while it is played.

namespace SideQuest

structure QuestCategory where
  id : Id
  slug : String
  deriving DecidableEq

-- The columns of a quest that no player's request looks at.
structure QuestColumns where
  title : String
  summary : Option String := none
  description : String
  difficulty : QuestDifficulty := .EASY
  estimatedDurationMin : Option ℕ := none
  imageUrl : Option String := none
  coverImageUrl : Option String := none
  authorId : Option Id := none
  publishedAt : Option Time := none
  startsAt : Option Time := none
  endsAt : Option Time := none

-- The database as editors see it.
structure Editorial where
  world : World
  columns : Id → QuestColumns
  categories : Table QuestCategory.id

namespace QuestsService

structure Actor where
  id : Id
  role : UserRole

-- The dates are those that the strings stand for.
structure UpdateQuestDto where
  title : Option String := none
  summary : Option String := none
  description : Option String := none
  difficulty : Option QuestDifficulty := none
  status : Option QuestStatus := none
  xpReward : Option ℕ := none
  estimatedDurationMin : Option ℕ := none
  categoryId : Option Id := none
  imageUrl : Option String := none
  coverImageUrl : Option String := none
  startsAt : Option Time := none
  endsAt : Option Time := none

def assertCanMutate (actor : Actor) (authorId : Option Id) : Except ApiError Unit :=
  if actor.role = .ADMIN ∨ actor.role = .MODERATOR then .ok ()
  else if authorId = some actor.id then .ok ()
  else .error (.forbidden "Not allowed to mutate this quest")

-- What Prisma does with the data: a field that is `undefined` stays as it is.
def UpdateQuestDto.apply (dto : UpdateQuestDto) (category : Option QuestCategory) (quest : Quest) :
    Quest :=
  { quest with
    status := dto.status.getD quest.status
    xpReward := (dto.xpReward.map Nat.cast).getD quest.xpReward
    categorySlug := category.map QuestCategory.slug <|> quest.categorySlug }

def UpdateQuestDto.applyColumns (dto : UpdateQuestDto) (now : Time) (old : QuestColumns) :
    QuestColumns :=
  { old with
    title := dto.title.getD old.title
    summary := dto.summary <|> old.summary
    description := dto.description.getD old.description
    difficulty := dto.difficulty.getD old.difficulty
    estimatedDurationMin := dto.estimatedDurationMin <|> old.estimatedDurationMin
    imageUrl := dto.imageUrl <|> old.imageUrl
    coverImageUrl := dto.coverImageUrl <|> old.coverImageUrl
    startsAt := dto.startsAt <|> old.startsAt
    endsAt := dto.endsAt <|> old.endsAt
    publishedAt :=
      if dto.status = some .PUBLISHED ∧ old.publishedAt = none then some now else old.publishedAt }

-- `{ connect: { id: dto.categoryId } }`
def connectedCategory (categories : Table QuestCategory.id) :
    Option Id → Except ApiError (Option QuestCategory)
  | none => .ok none
  | some id =>
      match categories.find? id with
      | some category => .ok (some category)
      | none => .error (.prisma .P2025)

-- The row that the answer is made from, and the database that the update leaves behind.
def update (actor : Actor) (questId : Id) (dto : UpdateQuestDto) (s : Editorial) :
    Except ApiError ((Quest × QuestColumns) × Editorial) :=
  match s.world.quests.find? questId with
  | none => .error (.notFound "Quest not found")
  | some quest => do
      let columns := s.columns questId
      assertCanMutate actor columns.authorId
      let category ← connectedCategory s.categories dto.categoryId
      let updated := dto.applyColumns s.world.clock columns
      let quests := s.world.quests.modify questId (dto.apply category) fun _ => rfl
      return ((dto.apply category quest, updated),
        { s with
          world := { s.world with quests }
          columns := Function.update s.columns questId updated })

end QuestsService

end SideQuest
