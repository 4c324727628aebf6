import SideQuest.Model.Leaderboard
import SideQuest.Listings.Walk
import SideQuest.Lib.Cut

-- The entries of a leaderboard and the entry of its viewer come from two queries, which
-- may order the users who tie differently.

namespace SideQuest

open Paging

namespace LeaderboardRepository

variable {db : QueryOrder rankOrderBy} {rows : List LeaderboardSqlRow} {limit : ℕ}

-- The first ranks are the first rows of the order.
theorem listTop_eq : listTop db rows limit = ((db.order rows).take limit).zipIdx 1 := by
  have hfrom (l : List LeaderboardSqlRow) (k n : ℕ) :
      (l.zipIdx (k + 1)).filter (fun r => r.2 ≤ k + n) = (l.take n).zipIdx (k + 1) := by
    induction l generalizing k n with
    | nil => rw [List.take_nil]; rfl
    | cons r rest ih =>
        cases n with
        | zero =>
            refine List.filter_eq_nil_iff.mpr fun x hx => ?_
            have hbehind := List.le_snd_of_mem_zipIdx hx
            simp only [decide_eq_true_eq]
            omega
        | succ n =>
            have hnext := ih (k + 1) n
            rw [show k + 1 + n = k + (n + 1) by omega] at hnext
            rw [List.zipIdx_cons, List.filter_cons_of_pos (by simp), hnext, List.take_succ_cons,
              List.zipIdx_cons]
  have hall := hfrom (db.order rows) 0 limit
  rwa [Nat.zero_add, Nat.zero_add] at hall

theorem eq_of_id_eq (hids : (rows.map (·.id)).Nodup) {r r' : LeaderboardSqlRow} (hr : r ∈ rows)
    (hr' : r' ∈ rows) (hid : r.id = r'.id) : r = r' :=
  List.inj_on_of_nodup_map hids hr hr' hid

-- The rank of a user is one more than the number of the rows before his.
theorem findMyRank_eq (hids : (rows.map (·.id)).Nodup) {r : LeaderboardSqlRow} {i : ℕ}
    (hat : (db.order rows)[i]? = some r) : findMyRank db rows r.id = some (r, i + 1) := by
  have hperm := (db.answers rows).perm
  have hnodup : (db.order rows).Nodup := hperm.nodup_iff.mpr (.of_map _ hids)
  have hmem : (r, i + 1) ∈ ranked db rows := List.mem_zipIdx_iff_le_and_getElem?_sub.mpr
    ⟨Nat.le_add_left 1 i, by simpa using hat⟩
  cases hfound : findMyRank db rows r.id with
  | none => exact absurd (List.find?_eq_none.mp hfound _ hmem) (by simp)
  | some found =>
      obtain ⟨r', rank⟩ := found
      have hid : r'.id = r.id := by
        have hp := List.find?_some hfound
        exact of_decide_eq_true hp
      obtain ⟨hle, hat'⟩ := List.mem_zipIdx_iff_le_and_getElem?_sub.mp
        (List.mem_of_find?_eq_some hfound)
      have hrow (j : ℕ) (x : LeaderboardSqlRow) (h : (db.order rows)[j]? = some x) : x ∈ rows :=
        hperm.mem_iff.mp (List.mem_of_getElem? h)
      obtain rfl : r' = r := eq_of_id_eq hids (hrow _ _ hat') (hrow _ _ hat) hid
      have hsame : rank - 1 = i := by
        obtain ⟨hlt, -⟩ := List.getElem?_eq_some_iff.mp hat
        exact ((List.getElem?_inj hlt hnodup).mp (hat.trans hat'.symm)).symm
      congr 2
      simp only at hle
      omega

end LeaderboardRepository

namespace LeaderboardService

open LeaderboardRepository

-- The ranks of the entries are 1, 2, .. and a viewer who is on the board but not among the
-- entries is told a rank behind them, so that no rank is given twice.
structure Coherent (rows : List LeaderboardSqlRow) (viewerId : Option Id)
    (response : LeaderboardResponseDto) : Prop where
  ranks : response.entries.map (·.rank) = List.range' 1 response.entries.length
  behind : ∀ r ∈ rows, viewerId = some r.id → r.id ∉ response.entries.map (·.id) →
    ∃ e, response.myEntry = some e ∧ e.id = r.id ∧ response.entries.length < e.rank
  once : (response.entries.map (·.rank) ++ (response.myEntry.toList.filter fun e =>
    e.id ∉ response.entries.map (·.id)).map (·.rank)).Nodup

section Respond

variable {rows : List LeaderboardSqlRow} {limit : ℕ} {viewerId : Option Id}
  {db db' : QueryOrder rankOrderBy} {r : LeaderboardSqlRow}

theorem ids_respond : (respond rows limit viewerId db db').entries.map (·.id) =
    ((db.order rows).take limit).map (·.id) := by
  have hfst : (((db.order rows).take limit).zipIdx 1).map Prod.fst = (db.order rows).take limit :=
    List.zipIdx_map_fst 1 _
  show (((listTop db rows limit).map (toEntry viewerId)).map (·.id)) = _
  rw [listTop_eq, List.map_map]
  conv_rhs => rw [← hfst, List.map_map]
  rfl

theorem ranks_respond : (respond rows limit viewerId db db').entries.map (·.rank) =
    List.range' 1 (respond rows limit viewerId db db').entries.length := by
  show ((listTop db rows limit).map (toEntry viewerId)).map (·.rank) =
    List.range' 1 ((listTop db rows limit).map (toEntry viewerId)).length
  rw [listTop_eq, List.map_map, List.length_map, List.length_zipIdx]
  exact List.zipIdx_map_snd 1 _

theorem length_respond :
    (respond rows limit viewerId db db').entries.length = min limit rows.length := by
  have hids : (respond rows limit viewerId db db').entries.map (·.id) =
    ((db.order rows).take limit).map (·.id) := ids_respond
  have hlength := congrArg List.length hids
  rwa [List.length_map, List.length_map, List.length_take, (db.answers rows).length_eq] at hlength

theorem mem_ids_respond (hids : (rows.map (·.id)).Nodup) (hr : r ∈ rows) :
    r.id ∈ (respond rows limit viewerId db db').entries.map (·.id) ↔
      r ∈ (db.order rows).take limit := by
  rw [ids_respond]
  refine ⟨fun h => ?_, List.mem_map_of_mem⟩
  obtain ⟨r', hr', hid⟩ := List.mem_map.mp h
  have hrow := (db.answers rows).perm.mem_iff.mp (List.mem_of_mem_take hr')
  exact eq_of_id_eq hids hrow hr hid ▸ hr'

-- A viewer who is not among the entries is told his rank in the other order.
theorem myEntry_respond (hids : (rows.map (·.id)).Nodup) {i : ℕ}
    (hat : (db'.order rows)[i]? = some r)
    (hcut : r.id ∉ (respond rows limit (some r.id) db db').entries.map (·.id)) :
    (respond rows limit (some r.id) db db').myEntry = some (toEntry (some r.id) (r, i + 1)) := by
  have hnone : ((listTop db rows limit).map (toEntry (some r.id))).find?
      (fun e => e.id = r.id) = none := by
    exact List.find?_eq_none.mpr fun e he hid =>
      hcut (List.mem_map.mpr ⟨e, he, of_decide_eq_true hid⟩)
  simp only [respond, Option.bind_some, hnone, findMyRank_eq hids hat, Option.map_some]

-- The entry of the viewer is one of the entries or a row of the board.
theorem myEntry_cases {e : LeaderboardEntryDto}
    (he : (respond rows limit viewerId db db').myEntry = some e) :
    e.id ∈ (respond rows limit viewerId db db').entries.map (·.id) ∨
      ∃ r ∈ rows, viewerId = some r.id ∧ e.id = r.id := by
  obtain ⟨userId, rfl, he⟩ := Option.bind_eq_some_iff.mp he
  split at he
  · rename_i inTop hfound
    obtain rfl := Option.some.inj he
    exact .inl (List.mem_map_of_mem (List.mem_of_find?_eq_some hfound))
  · obtain ⟨found, hfound, rfl⟩ := Option.map_eq_some_iff.mp he
    have hid := List.find?_some hfound
    have hmem := List.fst_mem_of_mem_zipIdx (List.mem_of_find?_eq_some hfound)
    exact .inr ⟨found.1, (db'.answers rows).perm.mem_iff.mp hmem,
      congrArg some (of_decide_eq_true hid).symm, rfl⟩

-- Ranks behind the entries are not among theirs.
theorem coherent_of_behind
    (hbehind : ∀ r ∈ rows, viewerId = some r.id →
      r.id ∉ (respond rows limit viewerId db db').entries.map (·.id) →
        ∃ e, (respond rows limit viewerId db db').myEntry = some e ∧ e.id = r.id ∧
          (respond rows limit viewerId db db').entries.length < e.rank) :
    Coherent rows viewerId (respond rows limit viewerId db db') := by
  refine ⟨ranks_respond, hbehind, ?_⟩
  rw [ranks_respond]
  have hranks : (List.range' 1 (respond rows limit viewerId db db').entries.length).Nodup :=
    List.nodup_range' 1
  cases hmine : (respond rows limit viewerId db db').myEntry with
  | none =>
      rw [Option.toList_none, List.filter_nil, List.map_nil, List.append_nil]
      exact hranks
  | some e =>
      rw [Option.toList_some]
      by_cases hin : e.id ∈ (respond rows limit viewerId db db').entries.map (·.id)
      · rw [List.filter_cons_of_neg (by simpa using hin), List.filter_nil, List.map_nil,
          List.append_nil]
        exact hranks
      · obtain ⟨r, hr, hviewer, hid⟩ := (myEntry_cases hmine).resolve_left hin
        obtain ⟨e', he', -, hlt⟩ := hbehind r hr hviewer (hid ▸ hin)
        obtain rfl := Option.some.inj (hmine.symm.trans he')
        rw [List.filter_cons_of_pos (by simpa using hin), List.filter_nil, List.map_singleton]
        refine hranks.append (List.nodup_singleton _) (List.disjoint_singleton.mpr fun hrank => ?_)
        have hle := (List.mem_range'_1.mp hrank).2
        omega

theorem coherent_respond_iff (hids : (rows.map (·.id)).Nodup) :
    Coherent rows viewerId (respond rows limit viewerId db db') ↔
      ∀ r ∈ rows, viewerId = some r.id →
        r ∈ (db'.order rows).take limit → r ∈ (db.order rows).take limit := by
  constructor
  · rintro hcoherent r hr rfl htaken
    by_contra hcut
    have hentry : r.id ∈ (respond rows limit (some r.id) db db').entries.map (·.id) ↔
      r ∈ (db.order rows).take limit := mem_ids_respond hids hr
    rw [← hentry] at hcut
    obtain ⟨i, hi, hat⟩ := mem_take_iff.mp htaken
    obtain ⟨e, he, -, hbehind⟩ := hcoherent.behind r hr rfl hcut
    rw [myEntry_respond hids hat hcut, length_respond] at *
    obtain rfl := Option.some.inj he
    obtain ⟨hlt, -⟩ := List.getElem?_eq_some_iff.mp hat
    rw [(db'.answers rows).length_eq] at hlt
    simp only [toEntry] at hbehind
    omega
  · intro hside
    refine coherent_of_behind ?_
    rintro r hr rfl hcut
    obtain ⟨i, hat⟩ := List.mem_iff_getElem?.mp ((db'.answers rows).perm.mem_iff.mpr hr)
    refine ⟨_, myEntry_respond hids hat hcut, rfl, ?_⟩
    rw [mem_ids_respond hids hr] at hcut
    have hbehind : ¬i < limit := fun hi =>
      hcut (hside r hr rfl (mem_take_iff.mpr ⟨i, hi, hat⟩))
    rw [length_respond]
    simp only [toEntry]
    omega

-- Whatever the database does in either query.
theorem forall_coherent_iff (hids : (rows.map (·.id)).Nodup) :
    (∀ db db', Coherent rows viewerId (respond rows limit viewerId db db')) ↔
      ∀ r ∈ rows, viewerId = some r.id →
        ¬(rankOrderBy.key r ∈ (sortedKeys rankOrderBy.key rows).take limit ∧
          rankOrderBy.key r ∈ (sortedKeys rankOrderBy.key rows).drop limit) := by
  have hnodup : rows.Nodup := .of_map _ hids
  constructor
  · intro hall r hr hviewer
    refine (forall_same_side_iff hnodup hr).mp fun answer answer' h h' => ?_
    obtain ⟨db', rfl⟩ := exists_queryOrder h
    obtain ⟨db, rfl⟩ := exists_queryOrder h'
    exact (coherent_respond_iff hids).mp (hall db db') r hr hviewer
  · intro hside db db'
    refine (coherent_respond_iff hids).mpr fun r hr hviewer => ?_
    exact (forall_same_side_iff hnodup hr).mpr (hside r hr hviewer) _ _ (db'.answers rows)
      (db.answers rows)

end Respond

theorem nodup_queryRows (lowerBtrim : String → String) (users : Table fun u : RankedUser => u.id)
    (completions : List QuestCompletion) (now : Time) (query : LeaderboardQueryDto)
    (cityLower : Option String) :
    ((queryRows lowerBtrim users.rows completions now query cityLower).map (·.id)).Nodup := by
  have hids : (queryRows lowerBtrim users.rows completions now query cityLower).map (·.id) =
      (users.rows.filter (onBoard lowerBtrim cityLower)).map (·.id) := by
    rw [queryRows, boardRows, List.map_map]
    refine List.map_congr_left fun u _ => ?_
    cases leaderboardPeriodStartUtc now (query.period.getD .ALL_TIME) <;> rfl
  rw [hids]
  exact users.nodup.sublist (List.filter_sublist.map _)

-- The answers are coherent, whatever the database does in the two queries, exactly if the
-- users who tie with the viewer do not stand on both sides of the last rank of the list.
theorem coherent_iff (host : Host) (lowerBtrim : String → String)
    (users : Table fun u : RankedUser => u.id) (completions : List QuestCompletion) (now : Time)
    (query : LeaderboardQueryDto) (viewerId : Option Id) :
    (∀ (db db' : QueryOrder rankOrderBy) (cityLower : Option String) (response),
      cityLowerOf host query = .ok cityLower →
      get host lowerBtrim users.rows completions now query viewerId db db' = .ok response →
        Coherent (queryRows lowerBtrim users.rows completions now query cityLower) viewerId
          response) ↔
      ∀ cityLower, cityLowerOf host query = .ok cityLower →
        ∀ r ∈ queryRows lowerBtrim users.rows completions now query cityLower,
          viewerId = some r.id →
            ¬(rankOrderBy.key r ∈ (sortedKeys rankOrderBy.key
                (queryRows lowerBtrim users.rows completions now query cityLower)).take query.limit ∧
              rankOrderBy.key r ∈ (sortedKeys rankOrderBy.key
                (queryRows lowerBtrim users.rows completions now query cityLower)).drop
                  query.limit) := by
  have hids := nodup_queryRows lowerBtrim users completions now query
  have hget (db db') (cityLower) (hcity : cityLowerOf host query = .ok cityLower) :
      get host lowerBtrim users.rows completions now query viewerId db db' =
        .ok (respond (queryRows lowerBtrim users.rows completions now query cityLower)
          query.limit viewerId db db') := by
    simp [get, hcity, bind, Except.bind, pure, Except.pure]
  constructor
  · intro hall cityLower hcity
    refine (forall_coherent_iff (hids cityLower)).mp fun db db' => ?_
    exact hall db db' cityLower _ hcity (hget db db' cityLower hcity)
  · intro hside db db' cityLower response hcity hresponse
    rw [hget db db' cityLower hcity] at hresponse
    obtain rfl := Except.ok.inj hresponse
    exact (forall_coherent_iff (hids cityLower)).mpr (hside cityLower hcity) db db'

-- Two users who registered in the same millisecond and have done nothing yet.
def adaOnBoard : RankedUser where
  id := 0
  email := "ada@example.com"
  username := "ada"
  passwordHash := ""
  createdAt := 0

def bobOnBoard : RankedUser :=
  { adaOnBoard with id := 1, email := "bob@example.com", username := "bob" }

def registeredAtOnce : Table fun u : RankedUser => u.id := ⟨[adaOnBoard, bobOnBoard], by decide⟩

-- Of a list of one the second may be told that he is the first, too.
theorem not_coherent_registeredAtOnce :
    ¬∀ (db db' : QueryOrder rankOrderBy) (response),
      get Host.plain id registeredAtOnce.rows [] 0 { limit := 1 } (some 1) db db' = .ok response →
        Coherent (queryRows id registeredAtOnce.rows [] 0 { limit := 1 } none) (some 1)
          response := by
  intro hall
  have hside := (@forall_coherent_iff _ 1 (some 1)
    (nodup_queryRows id registeredAtOnce [] 0 { limit := 1 } none)).mp
      fun db db' => hall db db' _ rfl
  have hkeys : sortedKeys rankOrderBy.key
      (queryRows id registeredAtOnce.rows [] 0 { limit := 1 } none) =
        [toLex (.toDual 0, toLex (.toDual 1, 0)), toLex (.toDual 0, toLex (.toDual 1, 0))] := rfl
  rw [hkeys] at hside
  exact hside (allTimeRow bobOnBoard) (.tail _ (.head _)) rfl
    ⟨List.mem_cons_self, List.mem_cons_self⟩

end LeaderboardService

end SideQuest
