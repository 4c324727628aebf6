import SideQuest.Model.Entities
import SideQuest.Lib.Paging
import Mathlib.Algebra.Order.Floor.Semiring
import Mathlib.Data.Rat.Floor
import Mathlib.Data.Prod.Lex

-- The lists that are read page by page: users, quests, the quest history of a user, and
-- his notifications. They read the database and write nothing.

namespace SideQuest

open Paging

inductive QuestDifficulty where
  | EASY | MEDIUM | HARD | EPIC
  deriving DecidableEq

-- The rows with the columns that the lists look at.
structure ListedUser extends User where
  createdAt : Time

structure ListedQuest extends Quest where
  title : String
  difficulty : QuestDifficulty := .EASY
  createdAt : Time

structure Notification where
  id : Id
  userId : Id
  type : String
  createdAt : Time

-- An `orderBy`: the columns that it names, in order, with the descending ones turned
-- around. A column with nulls has them last in ascending order.
structure OrderBy (α : Type) : Type 1 where
  κ : Type
  order : LinearOrder κ
  key : α → κ

instance {α : Type} (orderBy : OrderBy α) : LinearOrder orderBy.κ := orderBy.order

-- How the database orders the rows for one query: as `orderBy` says, and rows that tie
-- as it likes.
structure QueryOrder {α : Type} (orderBy : OrderBy α) where
  order : List α → List α
  answers : ∀ rows, Answers orderBy.key rows (order rows)

def findMany {α : Type} {orderBy : OrderBy α} (db : QueryOrder orderBy) (rows : List α)
    (skip take : ℕ) : List α := ((db.order rows).drop skip).take take

structure PaginationMeta where
  page : ℕ
  limit : ℕ
  total : ℕ
  totalPages : ℕ
  hasNext : Bool
  hasPrev : Bool
  deriving DecidableEq

structure PaginatedResult (α : Type) where
  items : List α
  pagination : PaginationMeta
  deriving DecidableEq

def buildPaginationMeta (page limit total : ℕ) : PaginationMeta :=
  let totalPages := max 1 ⌈(total : ℚ) / (max 1 limit : ℕ)⌉₊
  { page, limit, total, totalPages, hasNext := page < totalPages, hasPrev := page > 1 }

def paginate {α : Type} (items : List α) (page limit total : ℕ) : PaginatedResult α :=
  ⟨items, buildPaginationMeta page limit total⟩

structure PaginationQueryDto where
  page : ℕ := 1
  limit : ℕ := 20
  search : Option String := none

def PaginationQueryDto.skip (query : PaginationQueryDto) : ℕ := (query.page - 1) * query.limit

def PaginationQueryDto.take (query : PaginationQueryDto) : ℕ := query.limit

-- A text of a query that is there and not empty.
def truthy (text : Option String) : Option String := text.filter fun s => s ≠ ""

-- The text comparisons of the database: `contains` in insensitive mode, and the order
-- of a text column.
structure Collation where
  containsInsensitive : String → String → Bool
  order : OrderBy String

namespace UsersService

inductive UserListSort where
  | XP_DESC | XP_ASC | LEVEL_DESC | CREATED_DESC | USERNAME_ASC
  deriving DecidableEq

structure ListUsersQueryDto extends PaginationQueryDto where
  sort : Option UserListSort := none

def userListOrderBy (collation : Collation) : UserListSort → OrderBy ListedUser
  | .XP_DESC => ⟨ℤᵒᵈ ×ₗ Id, inferInstance, fun u => toLex (.toDual u.xp, u.id)⟩
  | .XP_ASC => ⟨ℤ ×ₗ Id, inferInstance, fun u => toLex (u.xp, u.id)⟩
  | .LEVEL_DESC => ⟨ℕᵒᵈ ×ₗ Id, inferInstance, fun u => toLex (.toDual u.level, u.id)⟩
  | .USERNAME_ASC => ⟨collation.order.κ ×ₗ Id, inferInstance,
      fun u => toLex (collation.order.key u.username, u.id)⟩
  | .CREATED_DESC => ⟨Timeᵒᵈ ×ₗ Id, inferInstance, fun u => toLex (.toDual u.createdAt, u.id)⟩

-- The `where` of the list.
def matchesSearch (collation : Collation) (search : Option String) (u : ListedUser) : Bool :=
  match truthy search with
  | some search =>
      collation.containsInsensitive u.username search ||
        u.displayName.any (fun name => collation.containsInsensitive name search) ||
          collation.containsInsensitive u.email search
  | none => true

def sortOf (query : ListUsersQueryDto) : UserListSort := query.sort.getD .CREATED_DESC

def list (collation : Collation) (users : List ListedUser) (query : ListUsersQueryDto)
    (db : QueryOrder (userListOrderBy collation (sortOf query))) : PaginatedResult ListedUser :=
  let found := users.filter (matchesSearch collation query.search)
  paginate (findMany db found query.skip query.take) query.page query.limit found.length

-- The `orderBy` of `QuestCompletionsRepository.listForUser`.
def historyOrderBy (status : QuestCompletionStatus) : OrderBy QuestCompletion :=
  if status = .COMPLETED then ⟨(WithTop Time)ᵒᵈ, inferInstance, fun c => .toDual c.completedAt⟩
  else ⟨Timeᵒᵈ, inferInstance, fun c => .toDual c.startedAt⟩

def getQuestHistory (users : List ListedUser) (completions : List QuestCompletion) (userId : Id)
    (page limit : ℕ) (status : Option QuestCompletionStatus)
    (db : QueryOrder (historyOrderBy (status.getD .COMPLETED))) :
    Except ApiError (PaginatedResult QuestCompletion) :=
  if users.any fun u => u.id = userId then
    let effectiveStatus := status.getD .COMPLETED
    let found := completions.filter fun c => c.userId = userId ∧ c.status = effectiveStatus
    .ok (paginate (findMany db found ((page - 1) * limit) limit) page limit found.length)
  else .error (.notFound "User not found")

end UsersService

namespace QuestsService

structure ListQuestsDto extends PaginationQueryDto where
  status : Option QuestStatus := none
  difficulty : Option QuestDifficulty := none
  categorySlug : Option String := none

def questsOrderBy : OrderBy ListedQuest := ⟨Timeᵒᵈ, inferInstance, fun q => .toDual q.createdAt⟩

-- The `where` of the list.
def matchesQuery (collation : Collation) (query : ListQuestsDto) (q : ListedQuest) : Bool :=
  q.status = query.status.getD .PUBLISHED &&
    query.difficulty.all (fun difficulty => q.difficulty = difficulty) &&
    (truthy query.categorySlug).all (fun slug => q.categorySlug = some slug) &&
    (truthy query.search).all (fun search => collation.containsInsensitive q.title search)

def list (collation : Collation) (quests : List ListedQuest) (query : ListQuestsDto)
    (db : QueryOrder questsOrderBy) : PaginatedResult ListedQuest :=
  let found := quests.filter (matchesQuery collation query)
  paginate (findMany db found query.skip query.take) query.page query.limit found.length

end QuestsService

namespace NotificationsService

def notificationsOrderBy : OrderBy Notification :=
  ⟨Timeᵒᵈ, inferInstance, fun n => .toDual n.createdAt⟩

def listForUser (notifications : List Notification) (userId : Id) (page limit : ℕ)
    (db : QueryOrder notificationsOrderBy) : PaginatedResult Notification :=
  let found := notifications.filter fun n => n.userId = userId
  paginate (findMany db found ((page - 1) * limit) limit) page limit found.length

end NotificationsService

end SideQuest
