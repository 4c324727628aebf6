import SideQuest.Lib.Double
import SideQuest.Model.Catalog
import SideQuest.Model.Listings
import SideQuest.Lib.Timeline
import SideQuest.Lib.Interleaving
import Mathlib.Data.List.Dedup
import Mathlib.Order.WithBot

-- `StatsService.getPublicStats` with its cache in the process, over a database that others
-- change at any time.

namespace SideQuest

namespace PublicStats

-- The columns of a user that the statistics look at.
structure Explorer where
  id : Id
  status : UserStatus := .ACTIVE
  primaryCity : String := "prague"
  distanceWalkedM : ℤ := 0
  deriving DecidableEq

structure Snapshot where
  users : Table Explorer.id
  quests : Table fun q : QuestWithEnrichment => q.id
  completions : Table QuestCompletion.key

-- The text functions of the database and its order of texts.
structure Sql where
  btrim : String → String
  lower : String → String
  le : String → String → Bool

structure PlatformCountsRow where
  totalExplorers : ℕ
  totalQuests : ℕ
  totalQuestCompletions : ℕ
  totalDistanceM : ℤ
  deriving DecidableEq

structure CityExplorerRow where
  slug : String
  explorers : ℕ
  deriving DecidableEq

def active (u : Explorer) : Bool := u.status = .ACTIVE

namespace StatsRepository

def loadPlatformCounts (db : Snapshot) : PlatformCountsRow where
  totalExplorers := db.users.count active
  totalQuests := db.quests.count fun q => q.status = .PUBLISHED
  totalQuestCompletions := db.completions.count fun c => c.status = .COMPLETED
  totalDistanceM := db.users.sum fun u => if active u then u.distanceWalkedM else 0

-- The slugs of the active users who have a city.
def citySlugs (sql : Sql) (db : Snapshot) : List String :=
  (db.users.rows.filter fun u => active u && sql.btrim u.primaryCity ≠ "").map fun u =>
    sql.lower (sql.btrim u.primaryCity)

-- `GROUP BY` the slug `ORDER BY "explorers" DESC, "slug" ASC`
def loadCityExplorerCounts (sql : Sql) (db : Snapshot) : List CityExplorerRow :=
  let slugs := citySlugs sql db
  (slugs.dedup.map fun slug => ⟨slug, slugs.count slug⟩).insertionSort fun a b =>
    b.explorers < a.explorers ∨ (a.explorers = b.explorers ∧ sql.le a.slug b.slug = true)

end StatsRepository

-- The three ways in which a quest gets featured.
inductive FeaturedBy where
  | flagged | rated | newest
  deriving DecidableEq

def FeaturedBy.where' : FeaturedBy → QuestWithEnrichment → Bool
  | .flagged, q => q.status = .PUBLISHED ∧ q.featuredAt ≠ none
  | .rated, q => q.status = .PUBLISHED ∧ q.ratingCount > 0
  | .newest, q => q.status = .PUBLISHED

-- `desc` has nulls first.
def FeaturedBy.orderBy : FeaturedBy → OrderBy QuestWithEnrichment
  | .flagged => ⟨(WithTop Time)ᵒᵈ, inferInstance, fun q => .toDual (q.featuredAt.elim ⊤ (↑))⟩
  | .rated => ⟨(WithTop ℚ)ᵒᵈ ×ₗ ℕᵒᵈ ×ₗ Timeᵒᵈ, inferInstance, fun q =>
      toLex (.toDual (q.ratingAvg.elim ⊤ (↑)), toLex (.toDual q.ratingCount, .toDual q.createdAt))⟩
  | .newest => ⟨Timeᵒᵈ, inferInstance, fun q => .toDual q.createdAt⟩

-- How the database orders the rows for each of the three queries.
def Orders := (way : FeaturedBy) → QueryOrder way.orderBy

def candidates (way : FeaturedBy) (db : Snapshot) : List QuestWithEnrichment :=
  db.quests.rows.filter way.where'

structure PublicStatsCityDto where
  slug : String
  name : String
  explorers : ℕ
  deriving DecidableEq

structure PublicStatsDto where
  totalExplorers : ℕ
  totalQuests : ℕ
  totalQuestCompletions : ℕ
  totalDistanceKm : ℚ
  cities : List PublicStatsCityDto
  featuredQuest : Option QuestDto
  deriving DecidableEq

structure World where
  db : Timeline Snapshot
  cache : Option (CacheEntry PublicStatsDto)
  -- the answers that have been given, with when the request came in
  served : List (Time × PublicStatsDto)

inductive Write where
  | setCache (entry : CacheEntry PublicStatsDto)
  | serve (arrived : Time) (payload : PublicStatsDto)

def World.apply (w : World) : Write → World
  | .setCache entry => { w with cache := some entry }
  | .serve arrived payload => { w with served := w.served ++ [(arrived, payload)] }

inductive Stmt : Type → Type where
  | now : Stmt Time
  -- `Date.now()` and the look into `this.cache`, with no `await` between them
  | cached : Stmt (Time × Option PublicStatsDto)
  | platformCounts : Stmt PlatformCountsRow
  | cityExplorerCounts (sql : Sql) : Stmt (List CityExplorerRow)
  | questFindFirst (orders : Orders) (way : FeaturedBy) : Stmt (Option Id)
  | questFindById (id : Id) : Stmt (Option QuestWithEnrichment)
  | setCache (entry : CacheEntry PublicStatsDto) : Stmt Unit
  | serve (arrived : Time) (payload : PublicStatsDto) : Stmt Unit

def findFirst (orders : Orders) (way : FeaturedBy) (db : Snapshot) : Option Id :=
  ((orders way).order (candidates way db)).head?.map (·.id)

def Stmt.exec {β : Type} : Stmt β → World → Except ApiError (β × List Write)
  | .now, w => .ok (w.db.now.time, [])
  | .cached, w => .ok ((w.db.now.time, CacheEntry.lookup w.db.now.time w.cache), [])
  | .platformCounts, w => .ok (StatsRepository.loadPlatformCounts w.db.now.data, [])
  | .cityExplorerCounts sql, w => .ok (StatsRepository.loadCityExplorerCounts sql w.db.now.data, [])
  | .questFindFirst orders way, w => .ok (findFirst orders way w.db.now.data, [])
  | .questFindById id, w => .ok (w.db.now.data.quests.find? id, [])
  | .setCache entry, _ => .ok ((), [.setCache entry])
  | .serve arrived payload, _ => .ok ((), [.serve arrived payload])

-- Outside these requests time passes and the database changes.
instance : Backend Stmt World Write Empty ApiError (ℕ × Snapshot) where
  exec := Stmt.exec
  apply := World.apply
  locks _ := []
  happen change w := { w with db := w.db.change change.1 change.2 }

instance : ReadCommitted.LawfulBackend Stmt where
  same l _ _ := l.elim
  same_refl l _ := l.elim
  same_trans {l} := l.elim
  same_apply {l} := l.elim
  same_happen l := l.elim

abbrev Request (α : Type) := Prog Stmt ApiError α

abbrev prisma {α : Type} (st : Stmt α) : Request α := Prog.call st

def CACHE_TTL_MS : ℤ := 300000

-- In doubles.
def metersToKm (m : ℤ) : ℚ :=
  if m ≤ 0 then 0
  else
    let km := Double.round (Double.round m / 1000)
    Double.round (mathRound (Double.round (km * 1000)) / 1000)

-- The text functions of the process; `isSpace` is `\s`.
structure Texts where
  trim : String → String
  toUpperCase : String → String
  toLowerCase : String → String
  isSpace : Char → Bool

def capitalize (texts : Texts) (part : List Char) : String :=
  texts.toUpperCase (String.ofList (part.take 1)) ++ texts.toLowerCase (String.ofList (part.drop 1))

-- `split(/[-_\s]+/).filter(Boolean).map(…).join(' ')`
def displayNameFromCitySlug (texts : Texts) (slug : String) : String :=
  let s := texts.trim slug
  if s = "" then s
  else
    let parts := s.toList.splitOnP fun c => c = '-' || c = '_' || texts.isSpace c
    " ".intercalate ((parts.filter (· ≠ [])).map (capitalize texts))

section Service

variable (host : Host) (texts : Texts) (sql : Sql) (orders : Orders)

def questsServiceGetById (id : Id) : Request QuestDto := do
  let found ← prisma (.questFindById id)
  let quest ← Prog.expect found (.notFound "Quest not found")
  return QuestsService.toDto host quest none none

-- The first of the three queries that finds a quest.
def featuredId : Request (Option Id) := do
  match ← prisma (.questFindFirst orders .flagged) with
  | some id => return some id
  | none =>
      match ← prisma (.questFindFirst orders .rated) with
      | some id => return some id
      | none => prisma (.questFindFirst orders .newest)

def resolveFeaturedQuestDto : Request (Option QuestDto) := do
  match ← featuredId orders with
  | none => return none
  | some id => some <$> questsServiceGetById host id

def toCityDto (r : CityExplorerRow) : PublicStatsCityDto :=
  ⟨r.slug, displayNameFromCitySlug texts r.slug, r.explorers⟩

def toPayload (counts : PlatformCountsRow) (cityRows : List CityExplorerRow)
    (featuredQuest : Option QuestDto) : PublicStatsDto where
  totalExplorers := counts.totalExplorers
  totalQuests := counts.totalQuests
  totalQuestCompletions := counts.totalQuestCompletions
  totalDistanceKm := metersToKm counts.totalDistanceM
  cities := cityRows.map (toCityDto texts)
  featuredQuest := featuredQuest

-- The three loads of `Promise.all`; `i` and `j` are when the first two are answered.
def loadAll (i j : ℕ) : Request (PlatformCountsRow × List CityExplorerRow × Option QuestDto) :=
  Prog.alongside .platformCounts i
    (Prog.alongside (.cityExplorerCounts sql) j (resolveFeaturedQuestDto host orders))

def getPublicStats (i j : ℕ) : Request PublicStatsDto := do
  let (now, hit) ← Prog.call .cached
  match hit with
  | some payload => return payload
  | none =>
      let (counts, cityRows, featuredQuest) ← loadAll host sql orders i j
      let payload := toPayload texts counts cityRows featuredQuest
      Prog.call (.setCache ⟨now + CACHE_TTL_MS, payload⟩)
      return payload

-- `StatsController.getPublic`; the time is noted for the record of the answers.
def getPublic (i j : ℕ) : Request Unit := do
  let arrived ← Prog.call .now
  let payload ← getPublicStats host texts sql orders i j
  Prog.call (.serve arrived payload)

end Service

end PublicStats

end SideQuest
