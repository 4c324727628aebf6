import SideQuest.Model.Catalog

-- The catalogue as a database of its own, and the requests that write and read it.

namespace SideQuest

def lengthWithin (low high : ℕ) (s : String) : Bool := low ≤ s.length ∧ s.length ≤ high

def within (low high : ℤ) (n : ℤ) : Bool := low ≤ n ∧ n ≤ high

structure CreateQuestLocationDto where
  name : Option String := none
  address : Option String := none
  latitude : ℚ
  longitude : ℚ
  radiusM : Option ℤ := none
  orderIndex : Option ℤ := none

structure CreateQuestDto where
  slug : String
  title : String
  summary : Option String := none
  description : String
  difficulty : Option QuestDifficulty := none
  xpReward : Option ℤ := none
  estimatedDurationMin : Option ℕ := none
  categoryId : Option Id := none
  businessId : Option Id := none
  imageUrl : Option String := none
  coverImageUrl : Option String := none
  locations : List CreateQuestLocationDto

-- What the `ValidationPipe` lets through.
def CreateQuestLocationDto.valid (loc : CreateQuestLocationDto) : Bool :=
  loc.name.all (lengthWithin 1 120) && loc.address.all (lengthWithin 1 240) &&
    (-90 ≤ loc.latitude ∧ loc.latitude ≤ 90) && (-180 ≤ loc.longitude ∧ loc.longitude ≤ 180) &&
    loc.radiusM.all (within 5 5000) && loc.orderIndex.all (0 ≤ ·)

-- `/^[a-z0-9-]+$/`
def isSlug (s : String) : Bool :=
  s ≠ "" && s.toList.all fun c => c.isLower || c.isDigit || c = '-'

def CreateQuestDto.valid (dto : CreateQuestDto) : Bool :=
  lengthWithin 3 64 dto.slug && isSlug dto.slug && lengthWithin 3 120 dto.title &&
    dto.summary.all (lengthWithin 0 240) && lengthWithin 10 5000 dto.description &&
    dto.xpReward.all (within 0 10000) &&
    dto.estimatedDurationMin.all (fun n : ℕ => within 1 1440 n) &&
    dto.imageUrl.all (lengthWithin 0 500) && dto.coverImageUrl.all (lengthWithin 0 500) &&
    within 1 20 dto.locations.length && dto.locations.all CreateQuestLocationDto.valid

def QuestsService.UpdateQuestDto.valid (dto : QuestsService.UpdateQuestDto) : Bool :=
  dto.title.all (lengthWithin 3 120) && dto.summary.all (lengthWithin 0 240) &&
    dto.description.all (lengthWithin 10 5000) && dto.xpReward.all (fun n : ℕ => within 0 10000 n) &&
    dto.estimatedDurationMin.all (fun n : ℕ => within 1 1440 n)

namespace Authoring

open QuestsService

structure World where
  clock : Time
  -- `cuid()` never gives an id twice.
  nextId : Id
  userIds : List Id
  businessIds : List Id
  categories : Table CategoryRow.id
  quests : Table CatalogQuest.id
  -- what players add to a quest
  enrichment : Id → Enrichment
  -- `userId`, `questId` and `locationId` of the check-ins
  checkIns : List (Id × Id × Id)

-- The data of `prisma.quest.create`.
structure QuestCreate where
  slug : String
  title : String
  summary : Option String
  description : String
  difficulty : Option QuestDifficulty
  xpReward : ℤ
  estimatedDurationMin : Option ℕ
  imageUrl : Option String
  coverImageUrl : Option String
  authorId : Id
  categoryId : Option Id
  businessId : Option Id
  locations : List (Id → Waypoint)

-- The data of `prisma.quest.update`: the fields of the DTO and, maybe, `publishedAt`.
structure QuestUpdate where
  dto : UpdateQuestDto
  publishedAt : Option Time

-- The locations get the ids after that of the quest.
def QuestCreate.row (data : QuestCreate) (id : Id) (now : Time) : CatalogQuest where
  id := id
  slug := data.slug
  title := data.title
  summary := data.summary
  description := data.description
  difficulty := data.difficulty.getD .EASY
  xpReward := data.xpReward
  estimatedDurationMin := data.estimatedDurationMin
  imageUrl := data.imageUrl
  coverImageUrl := data.coverImageUrl
  authorId := some data.authorId
  categoryId := data.categoryId
  businessId := data.businessId
  createdAt := now
  updatedAt := now
  locations := data.locations.mapIdx fun idx loc => loc (id + 1 + idx)

def QuestUpdate.apply (data : QuestUpdate) (now : Time) (quest : CatalogQuest) : CatalogQuest :=
  { quest with
    title := data.dto.title.getD quest.title
    summary := data.dto.summary <|> quest.summary
    description := data.dto.description.getD quest.description
    difficulty := data.dto.difficulty.getD quest.difficulty
    status := data.dto.status.getD quest.status
    xpReward := (data.dto.xpReward.map Nat.cast).getD quest.xpReward
    estimatedDurationMin := data.dto.estimatedDurationMin <|> quest.estimatedDurationMin
    imageUrl := data.dto.imageUrl <|> quest.imageUrl
    coverImageUrl := data.dto.coverImageUrl <|> quest.coverImageUrl
    startsAt := data.dto.startsAt <|> quest.startsAt
    endsAt := data.dto.endsAt <|> quest.endsAt
    categoryId := data.dto.categoryId <|> quest.categoryId
    publishedAt := data.publishedAt <|> quest.publishedAt
    updatedAt := now }

@[simp] theorem QuestUpdate.id_apply (data : QuestUpdate) (now : Time) (quest : CatalogQuest) :
    (data.apply now quest).id = quest.id := rfl

inductive Write where
  | questCreate (row : CatalogQuest)
  | questUpdate (id : Id) (data : QuestUpdate) (now : Time)
  | questDelete (id : Id)

inductive Lock where
  | quest (id : Id)
  deriving DecidableEq

def Write.locks : Write → List Lock
  | .questCreate row => [.quest row.id]
  | .questUpdate id _ _ => [.quest id]
  | .questDelete id => [.quest id]

namespace World

-- A location's check-ins, ratings and completions go with the quest.
def apply (w : World) : Write → World
  | .questCreate row =>
      { w with
        quests := w.quests.insert row
        nextId := max w.nextId (row.id + 1 + row.locations.length) }
  | .questUpdate id data now =>
      { w with quests := w.quests.modify id (data.apply now) (data.id_apply now) }
  | .questDelete id =>
      { w with
        quests := w.quests.erase id
        enrichment := Function.update w.enrichment id {}
        checkIns := w.checkIns.filter fun c => c.2.1 ≠ id }

def publishedCount (w : World) (categoryId : Id) : ℕ :=
  w.quests.count fun q => q.categoryId = some categoryId ∧ q.status = .PUBLISHED

-- Locations that tie are in the order in which they were created.
def enriched (w : World) (quest : CatalogQuest) : QuestWithEnrichment :=
  { quest, w.enrichment quest.id with
    locations := quest.locations.insertionSort fun a b => a.orderIndex ≤ b.orderIndex
    category := (quest.categoryId.bind w.categories.find?).map fun c => (c, w.publishedCount c.id) }

def findBySlug (w : World) (slug : String) : Option CatalogQuest :=
  w.quests.rows.find? fun q => q.slug = slug

-- `{ connect: { id } }` finds its row.
def connects (w : World) (categoryId : Option Id) : Bool :=
  categoryId.all fun id => (w.categories.find? id).isSome

end World

inductive Stmt : Type → Type where
  | now : Stmt Time
  | questFindById (id : Id) : Stmt (Option QuestWithEnrichment)
  | questFindBySlug (slug : String) : Stmt (Option QuestWithEnrichment)
  | questCreate (data : QuestCreate) : Stmt QuestWithEnrichment
  | questUpdate (id : Id) (data : QuestUpdate) : Stmt QuestWithEnrichment
  | questDelete (id : Id) : Stmt QuestWithEnrichment
  | checkInFindMany (userId questId : Id) : Stmt (List Id)

def Stmt.exec {β : Type} : Stmt β → World → Except ApiError (β × List Write)
  | .now, w => .ok (w.clock, [])
  | .questFindById id, w => .ok ((w.quests.find? id).map w.enriched, [])
  | .questFindBySlug slug, w => .ok ((w.findBySlug slug).map w.enriched, [])
  | .questCreate data, w =>
      let row := data.row w.nextId w.clock
      if (w.findBySlug data.slug).isSome then .error (.prisma .P2002)
      else if data.authorId ∈ w.userIds ∧ w.connects data.categoryId ∧
          data.businessId.all (· ∈ w.businessIds) then
        .ok ((w.apply (.questCreate row)).enriched row, [.questCreate row])
      else .error (.prisma .P2025)
  | .questUpdate id data, w =>
      match w.quests.find? id with
      | none => .error (.prisma .P2025)
      | some quest =>
          if w.connects data.dto.categoryId then
            .ok ((w.apply (.questUpdate id data w.clock)).enriched (data.apply w.clock quest),
              [.questUpdate id data w.clock])
          else .error (.prisma .P2025)
  | .questDelete id, w =>
      match w.quests.find? id with
      | none => .error (.prisma .P2025)
      | some quest => .ok (w.enriched quest, [.questDelete id])
  | .checkInFindMany u q, w =>
      .ok ((w.checkIns.filter fun c => c.1 = u ∧ c.2.1 = q).map fun c => c.2.2, [])

-- Outside the requests only time passes.
instance : Backend Stmt World Write Lock ApiError ℕ where
  exec := Stmt.exec
  apply := World.apply
  locks := Write.locks
  happen elapsed w := { w with clock := w.clock + elapsed }

def Lock.same : Lock → World → World → Prop
  | .quest id, w, w' => w'.quests.find? id = w.quests.find? id

theorem Lock.same_apply {l : Lock} (w : World) {wr : Write} (h : l ∉ wr.locks) :
    l.same w (w.apply wr) := by
  obtain ⟨id⟩ := l
  have hne {id' : Id} (hid : Lock.quest id ∉ [Lock.quest id']) : id' ≠ id :=
    fun he => hid (he ▸ List.mem_cons_self)
  cases wr with
  | questCreate row => exact Table.find?_insert_ne _ (hne h)
  | questUpdate id' data now => exact Table.find?_modify_ne _ _ (data.id_apply now) (hne h).symm
  | questDelete id' =>
      refine (Table.find?_erase _ _ _).trans (if_neg ?_)
      exact (hne h).symm

instance : ReadCommitted.LawfulBackend Stmt where
  same := Lock.same
  same_refl l _ := by cases l; rfl
  same_trans {l _ _ _} h h' := by
    cases l
    exact h'.trans h
  same_apply := Lock.same_apply
  same_happen l _ _ := by cases l; rfl

abbrev Request (α : Type) := Prog Stmt ApiError α

abbrev prisma {α : Type} (s : Stmt α) : Request α := Prog.call s

section Service

variable (host : Host)

def loadCheckedLocationIds (userId questId : Id) : Request (List Id) :=
  prisma (.checkInFindMany userId questId)

-- The ids that a viewer has checked in at, when there is a viewer.
def checkedFor (viewerUserId : Option Id) (questId : Id) : Request (Option (List Id)) :=
  match viewerUserId with
  | some userId => do
      let checked ← loadCheckedLocationIds userId questId
      return some checked
  | none => return none

def getById (id : Id) (viewerUserId : Option Id) : Request QuestDto := do
  let found ← prisma (.questFindById id)
  let quest ← Prog.expect found (.notFound "Quest not found")
  let checked ← checkedFor viewerUserId id
  return toDto host quest none checked

def getBySlug (slug : String) (viewerUserId : Option Id) : Request QuestDto := do
  let found ← prisma (.questFindBySlug slug)
  let quest ← Prog.expect found (.notFound "Quest not found")
  let checked ← checkedFor viewerUserId quest.id
  return toDto host quest none checked

def waypointOf (idx : ℕ) (loc : CreateQuestLocationDto) (id : Id) : Waypoint where
  id := id
  name := loc.name
  address := loc.address
  latitude := loc.latitude
  longitude := loc.longitude
  radiusM := loc.radiusM.getD 50
  orderIndex := loc.orderIndex.getD idx

def createData (authorId : Id) (dto : CreateQuestDto) : QuestCreate where
  slug := dto.slug
  title := dto.title
  summary := dto.summary
  description := dto.description
  difficulty := dto.difficulty
  xpReward := dto.xpReward.getD 50
  estimatedDurationMin := dto.estimatedDurationMin
  imageUrl := dto.imageUrl
  coverImageUrl := dto.coverImageUrl
  authorId := authorId
  categoryId := dto.categoryId
  businessId := dto.businessId
  locations := dto.locations.mapIdx waypointOf

def create (authorId : Id) (dto : CreateQuestDto) : Request QuestDto := do
  let existing ← prisma (.questFindBySlug dto.slug)
  Prog.require (existing = none) (.conflict "Quest slug already exists")
  let created ← prisma (.questCreate (createData authorId dto))
  return toDto host created none none

def allowed (actor : Actor) (authorId : Option Id) : Request Unit :=
  match assertCanMutate actor authorId with
  | .ok () => return ()
  | .error e => .throw e

-- `data.publishedAt = new Date()`, when the update publishes a quest that was not.
def publishedAtOf (status : Option QuestStatus) (publishedAt : Option Time) :
    Request (Option Time) :=
  if status = some .PUBLISHED ∧ publishedAt = none then do
    let now ← prisma .now
    return some now
  else return none

def update (actor : Actor) (questId : Id) (dto : UpdateQuestDto) : Request QuestDto := do
  let found ← prisma (.questFindById questId)
  let quest ← Prog.expect found (.notFound "Quest not found")
  allowed actor quest.authorId
  let publishedAt ← publishedAtOf dto.status quest.publishedAt
  let updated ← prisma (.questUpdate questId ⟨dto, publishedAt⟩)
  return toDto host updated none none

def delete (actor : Actor) (questId : Id) : Request Unit := do
  let found ← prisma (.questFindById questId)
  let quest ← Prog.expect found (.notFound "Quest not found")
  allowed actor quest.authorId
  let _ ← prisma (.questDelete questId)
  return ()

end Service

namespace QuestsController

-- `RolesGuard` with `@Roles(ADMIN, MODERATOR, BUSINESS_OWNER)`
def create (host : Host) (actor : Actor) (dto : CreateQuestDto) : Request QuestDto := do
  Prog.require (actor.role ∈ [.ADMIN, .MODERATOR, .BUSINESS_OWNER]) (.forbidden "Insufficient role")
  Authoring.create host actor.id dto

end QuestsController

end Authoring

end SideQuest
