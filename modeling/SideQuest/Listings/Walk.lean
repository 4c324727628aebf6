import SideQuest.Model.Listings
import Mathlib.Data.String.Basic
import Mathlib.Data.List.Infix

-- A client that asks for page 1, 2, … of a list as long as there is a next one.

namespace SideQuest

open Paging

variable {α : Type} {orderBy : OrderBy α}

inductive Walk (list : ℕ → Except ApiError (PaginatedResult α)) : ℕ → List α → Prop
  | last {page : ℕ} {result : PaginatedResult α} :
      list page = .ok result → result.pagination.hasNext = false → Walk list page result.items
  | next {page : ℕ} {result : PaginatedResult α} {rest : List α} :
      list page = .ok result → result.pagination.hasNext = true → Walk list (page + 1) rest →
        Walk list page (result.items ++ rest)

-- However the database orders each of the queries, the walk ends and has shown every row
-- once.
def WalksCompletely (orderBy : OrderBy α) (rows : List α)
    (list : QueryOrder orderBy → ℕ → Except ApiError (PaginatedResult α)) : Prop :=
  ∀ orders : ℕ → QueryOrder orderBy,
    ∃ items, Walk (fun page => list (orders page) page) 1 items ∧ items.Perm rows

def pages (limit total : ℕ) : ℕ := (buildPaginationMeta 1 limit total).totalPages

theorem le_pages {limit : ℕ} (hlimit : 0 < limit) (total : ℕ) : total ≤ pages limit total * limit := by
  have hpos : (0 : ℚ) < (limit : ℕ) := by exact_mod_cast hlimit
  have hceil : (total : ℚ) / (max 1 limit : ℕ) ≤ pages limit total := by
    refine (Nat.le_ceil _).trans ?_
    exact_mod_cast le_max_right 1 ⌈(total : ℚ) / (max 1 limit : ℕ)⌉₊
  rw [max_eq_right hlimit, div_le_iff₀ hpos] at hceil
  exact_mod_cast hceil

section Walk

variable {limit total : ℕ} {list : ℕ → Except ApiError (PaginatedResult α)} {shown : ℕ → List α}
  {page : ℕ} {result : PaginatedResult α} {items : List α}

theorem walk_last_iff (hpage : list page = .ok result)
    (hend : result.pagination.hasNext = false) : Walk list page items ↔ items = result.items := by
  constructor
  · intro h
    cases h with
    | last hlast _ =>
        rw [hpage] at hlast
        cases hlast
        rfl
    | next hnext hmore _ =>
        rw [hpage] at hnext
        cases hnext
        rw [hend] at hmore
        cases hmore
  · rintro rfl
    exact .last hpage hend

theorem walk_next_iff (hpage : list page = .ok result)
    (hmore : result.pagination.hasNext = true) : Walk list page items ↔
      ∃ rest, Walk list (page + 1) rest ∧ items = result.items ++ rest := by
  constructor
  · intro h
    cases h with
    | last hlast hend =>
        rw [hpage] at hlast
        cases hlast
        rw [hmore] at hend
        cases hend
    | next hnext _ hrest =>
        rw [hpage] at hnext
        cases hnext
        exact ⟨_, hrest, rfl⟩
  · rintro ⟨rest, hrest, rfl⟩
    exact .next hpage hmore hrest

theorem walk_iff
    (hlist : ∀ page, list page = .ok (paginate (shown page) page limit total)) {k : ℕ}
    (hk : page + k = pages limit total) :
    Walk list page items ↔ items = (List.range (k + 1)).flatMap fun i => shown (page + i) := by
  have hnext (page : ℕ) : (paginate (shown page) page limit total).pagination.hasNext =
      decide (page < pages limit total) := rfl
  induction k generalizing page items with
  | zero =>
      rw [walk_last_iff (hlist page) (by rw [hnext, decide_eq_false (by omega)]), List.range_one,
        List.flatMap_singleton]
      rfl
  | succ k ih =>
      have hafter : page + 1 + k = pages limit total := by omega
      have hshift (i : ℕ) : page + 1 + i = page + (i + 1) := by omega
      rw [walk_next_iff (hlist page) (by rw [hnext, decide_eq_true (by omega)]),
        List.range_succ_eq_map, List.flatMap_cons, List.flatMap_map]
      simp only [ih hafter, hshift, exists_eq_left]
      rfl

end Walk

theorem exists_queryOrder {rows answer : List α} (h : Answers orderBy.key rows answer) :
    ∃ db : QueryOrder orderBy, db.order rows = answer := by
  classical
  choose order horder using exists_answers orderBy.key
  refine ⟨⟨Function.update order rows answer, fun l => ?_⟩, Function.update_self _ _ _⟩
  rw [Function.update_apply]
  split
  · rename_i hl
    exact hl ▸ h
  · exact horder l

-- The walk shows every row once, whatever the database does, exactly if no group of rows
-- that tie reaches over the end of a page.
theorem walksCompletely_iff {rows : List α} (hnodup : rows.Nodup) {limit : ℕ} (hlimit : 0 < limit)
    {list : QueryOrder orderBy → ℕ → Except ApiError (PaginatedResult α)}
    (hlist : ∀ db page, list db page = .ok (paginate
      (findMany db rows ((page - 1) * limit) limit) page limit rows.length)) :
    WalksCompletely orderBy rows list ↔ BreaksClean limit (sortedKeys orderBy.key rows) := by
  let n := pages limit rows.length
  have hpos : 0 < n := lt_max_of_lt_left Nat.one_pos
  have hwalk (orders : ℕ → QueryOrder orderBy) (items : List α) :
      Walk (fun page => list (orders page) page) 1 items ↔
        items = firstPages limit (fun p => (orders (1 + p)).order rows) n := by
    have hn : 1 + (n - 1) = pages limit rows.length := by omega
    rw [walk_iff (fun page => hlist (orders page) page) hn, Nat.sub_add_cancel hpos]
    simp only [findMany, Nat.add_sub_cancel_left]
    rfl
  rw [← forall_firstPages_perm_iff hnodup (le_pages hlimit rows.length)]
  constructor
  · intro hall answers hanswers
    choose db hdb using fun p => exists_queryOrder (hanswers p)
    obtain ⟨items, hitems, hperm⟩ := hall fun page => db (page - 1)
    rw [(hwalk _ items).mp hitems] at hperm
    simpa only [Nat.add_sub_cancel_left, hdb] using hperm
  · intro hall orders
    exact ⟨_, (hwalk orders _).mpr rfl, hall _ fun p => (orders (1 + p)).answers rows⟩

theorem nodup_rows {α κ : Type} {key : α → κ} (t : Table key) : t.rows.Nodup :=
  List.Nodup.of_map key t.nodup

namespace UsersService

-- Every sort of the users ends with the id.
theorem exists_idOf (collation : Collation) (sort : UserListSort) :
    ∃ idOf : (userListOrderBy collation sort).κ → Id,
      ∀ u, idOf ((userListOrderBy collation sort).key u) = u.id := by
  cases sort <;> exact ⟨fun k => (ofLex k).2, fun _ => rfl⟩

theorem breaksClean_users (collation : Collation) (sort : UserListSort)
    (users : Table fun u : ListedUser => u.id) (p : ListedUser → Bool) (limit : ℕ) :
    BreaksClean limit
      (sortedKeys (userListOrderBy collation sort).key (users.rows.filter p)) := by
  obtain ⟨idOf, hid⟩ := exists_idOf collation sort
  apply breaksClean_of_nodup
  apply nodup_sortedKeys
  apply List.Nodup.of_map idOf
  have hids : ((users.rows.filter p).map (userListOrderBy collation sort).key).map idOf =
      (users.rows.filter p).map fun u => u.id := by
    rw [List.map_map]
    exact List.map_congr_left fun u _ => hid u
  rw [hids]
  exact users.nodup.sublist (List.filter_sublist.map _)

end UsersService

-- Which walks are complete: all of the users, and those of the other lists in which no
-- group of rows that tie reaches over the end of a page.
theorem listings_complete_iff (collation : Collation) (users : Table fun u : ListedUser => u.id)
    (quests : Table fun q : ListedQuest => q.id) (completions : Table QuestCompletion.key)
    (notifications : Table Notification.id) :
    (∀ query : UsersService.ListUsersQueryDto, 1 ≤ query.limit →
      WalksCompletely (UsersService.userListOrderBy collation (UsersService.sortOf query))
        (users.rows.filter (UsersService.matchesSearch collation query.search))
        fun db page => .ok (UsersService.list collation users.rows { query with page := page } db)) ∧
    (∀ query : QuestsService.ListQuestsDto, 1 ≤ query.limit →
      (WalksCompletely QuestsService.questsOrderBy
          (quests.rows.filter (QuestsService.matchesQuery collation query))
          (fun db page =>
            .ok (QuestsService.list collation quests.rows { query with page := page } db)) ↔
        BreaksClean query.limit (sortedKeys QuestsService.questsOrderBy.key
          (quests.rows.filter (QuestsService.matchesQuery collation query))))) ∧
    (∀ userId limit status, (users.find? userId).isSome → 1 ≤ limit →
      (WalksCompletely (UsersService.historyOrderBy (status.getD .COMPLETED))
          (completions.rows.filter fun c => c.userId = userId ∧ c.status = status.getD .COMPLETED)
          (fun db page => UsersService.getQuestHistory users.rows completions.rows userId page limit
            status db) ↔
        BreaksClean limit (sortedKeys (UsersService.historyOrderBy (status.getD .COMPLETED)).key
          (completions.rows.filter fun c =>
            c.userId = userId ∧ c.status = status.getD .COMPLETED)))) ∧
    ∀ userId limit, 1 ≤ limit →
      (WalksCompletely NotificationsService.notificationsOrderBy
          (notifications.rows.filter fun n => n.userId = userId)
          (fun db page =>
            .ok (NotificationsService.listForUser notifications.rows userId page limit db)) ↔
        BreaksClean limit (sortedKeys NotificationsService.notificationsOrderBy.key
          (notifications.rows.filter fun n => n.userId = userId))) := by
  refine ⟨fun query hlimit => ?_, fun query hlimit => ?_, fun userId limit status hfound hlimit => ?_,
    fun userId limit hlimit => ?_⟩
  · exact (walksCompletely_iff ((nodup_rows users).filter _) hlimit fun _ _ => rfl).mpr
      (UsersService.breaksClean_users collation _ users _ query.limit)
  · exact walksCompletely_iff ((nodup_rows quests).filter _) hlimit fun _ _ => rfl
  · refine walksCompletely_iff ((nodup_rows completions).filter _) hlimit fun db page => ?_
    have hany : users.rows.any (fun u => u.id = userId) = true := by
      obtain ⟨u, hu⟩ := Option.isSome_iff_exists.mp hfound
      obtain ⟨hmem, hid⟩ := Table.find?_eq_some_iff.mp hu
      exact List.any_eq_true.mpr ⟨u, hmem, decide_eq_true hid⟩
    exact if_pos hany
  · exact walksCompletely_iff ((nodup_rows notifications).filter _) hlimit fun _ _ => rfl

-- Ada with two quests done a millisecond apart.
def adaListed : Table fun u : ListedUser => u.id :=
  ⟨[{ id := 0, email := "ada@example.com", username := "ada", passwordHash := "", createdAt := 0 }],
    by decide⟩

def adasCompletions : Table QuestCompletion.key :=
  ⟨[⟨0, 0, .COMPLETED, 0, some 1, 50, none, none, []⟩,
    ⟨0, 1, .COMPLETED, 0, some 2, 50, none, none, []⟩], by decide⟩

def binaryCollation : Collation where
  containsInsensitive text part := part.toList <:+: text.toList
  order := ⟨String, inferInstance, id⟩

theorem listings_complete_ada :
    WalksCompletely (UsersService.userListOrderBy binaryCollation .CREATED_DESC)
      (adaListed.rows.filter (UsersService.matchesSearch binaryCollation none))
      (fun db page => .ok (UsersService.list binaryCollation adaListed.rows
        { page, limit := 1, sort := some .CREATED_DESC } db)) ∧
    WalksCompletely (UsersService.historyOrderBy .COMPLETED)
      (adasCompletions.rows.filter fun c => c.userId = 0 ∧ c.status = .COMPLETED)
      (fun db page =>
        UsersService.getQuestHistory adaListed.rows adasCompletions.rows 0 page 1 none db) := by
  have hall := listings_complete_iff binaryCollation adaListed Table.empty adasCompletions Table.empty
  constructor
  · exact hall.1 { limit := 1, sort := some .CREATED_DESC } le_rfl
  · exact (hall.2.2.1 0 1 none rfl le_rfl).mpr (breaksClean_of_nodup 1 (by decide))

-- Two notifications of one user in the same millisecond.
def twoAtOnce : Table Notification.id :=
  ⟨[⟨0, 0, "LEVEL_UP", 0⟩, ⟨1, 0, "QUEST_COMPLETED", 0⟩], by decide⟩

theorem not_walksCompletely_twoAtOnce :
    ¬ WalksCompletely NotificationsService.notificationsOrderBy
      (twoAtOnce.rows.filter fun n => n.userId = 0)
      (fun db page => .ok (NotificationsService.listForUser twoAtOnce.rows 0 page 1 db)) := by
  have hnodup := (nodup_rows twoAtOnce).filter fun n => n.userId = 0
  refine mt (walksCompletely_iff hnodup Nat.one_pos fun _ _ => rfl).mp fun hclean => ?_
  have hkeys : sortedKeys NotificationsService.notificationsOrderBy.key
      (twoAtOnce.rows.filter fun n => n.userId = 0) =
        [OrderDual.toDual (0 : Time), OrderDual.toDual (0 : Time)] := rfl
  have hcut := hclean 1
  rw [hkeys] at hcut
  exact hcut List.mem_cons_self List.mem_cons_self

end SideQuest
