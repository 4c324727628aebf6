import SideQuest.Model.Feed
import SideQuest.Lib.Merging
import Mathlib.Data.Int.ConditionallyCompleteOrder

-- A client that reads the activity of the friends page by page.

namespace SideQuest

open Paging

namespace FriendshipsService

variable {dates : DateTexts} {db : ActivityTables} {friendIds : List Id} {userId : Id}
  {before : Option Time} {orders : ActivityOrders}

def MergeRow.newest (row : MergeRow) : Timeᵒᵈ := .toDual row.createdAt

def friendEvents (dates : DateTexts) (db : ActivityTables) (userId : Id) : List MergeRow :=
  (matching db (acceptedFriendIds db.friendships.rows userId) none).merged dates

theorem completedAt_row (dates : DateTexts) (c : FriendCompletion) :
    (completedRow dates c).map MergeRow.createdAt = c.completedAt := by
  rw [completedRow, Option.map_map]
  exact Option.map_id'

theorem unlockedAt_row (dates : DateTexts) (a : FriendAchievement) :
    (achievementRow dates a).map MergeRow.createdAt = a.unlockedAt := by
  rw [achievementRow, Option.map_map]
  exact Option.map_id'

@[simp] theorem olderThan_none (t : Time) : olderThan none t = true := rfl

-- A `where` with a cursor leaves out what is not older.
theorem filterMap_older {α : Type} {row : α → Option MergeRow} {p q : α → Bool} (rows : List α)
    (hp : ∀ a r, row a = some r → p a = (q a && olderThan before r.createdAt)) :
    (rows.filter p).filterMap row =
      ((rows.filter q).filterMap row).filter fun r => olderThan before r.createdAt := by
  rw [List.filterMap_filter, List.filterMap_filter, List.filter_filterMap]
  refine List.filterMap_congr fun a _ => ?_
  cases hrow : row a with
  | none => simp
  | some r =>
      rw [hp a r hrow]
      cases q a <;> simp [Option.filter]

theorem map_older {α : Type} {row : α → MergeRow} {p q : α → Bool} (rows : List α)
    (hp : ∀ a, p a = (q a && olderThan before (row a).createdAt)) :
    (rows.filter p).map row =
      ((rows.filter q).map row).filter fun r => olderThan before r.createdAt := by
  have hrow (a : α) (r : MergeRow) (hr : some (row a) = some r) :
      p a = (q a && olderThan before r.createdAt) := by
    cases hr
    exact hp a
  simpa only [List.filterMap_eq_map'] using filterMap_older rows hrow

theorem merged_matching (dates : DateTexts) (db : ActivityTables) (friendIds : List Id)
    (before : Option Time) : (matching db friendIds before).merged dates =
      ((matching db friendIds none).merged dates).filter fun r => olderThan before r.createdAt := by
  simp only [ActivityStreams.merged, matching, List.filter_append]
  refine congrArg₂ _ (congrArg₂ _ (congrArg₂ _ (congrArg₂ _ ?_ ?_) ?_) ?_) ?_
  · refine filterMap_older db.completions.rows fun c r hr => ?_
    have ht := completedAt_row dates c
    simp [← ht, hr, Bool.and_assoc]
  · refine map_older db.completions.rows fun c => ?_
    simp [startedRow, Bool.and_assoc]
  · refine filterMap_older db.userAchievements.rows fun a r hr => ?_
    have ht := unlockedAt_row dates a
    simp [← ht, hr]
  · refine map_older db.notifications.rows fun n => ?_
    simp [levelUpRow, Bool.and_assoc]
  · refine map_older db.checkIns.rows fun visit => ?_
    simp [visitRow]

section Fetched

variable {α : Type} {orderBy : OrderBy α} {rows : List α}

theorem fetched_filterMap (query : QueryOrder orderBy) (cap : ℕ) {row : α → Option MergeRow}
    {time : α → WithTop Time} (htime : ∀ a, (row a).map MergeRow.createdAt = time a)
    (hkey : ∀ a b, orderBy.key a ≤ orderBy.key b → time b ≤ time a)
    (hrows : ∀ a ∈ rows, time a ≠ ⊤) :
    ∃ hidden, Fetched MergeRow.newest cap (rows.filterMap row)
      ((findMany query rows 0 cap).filterMap row) hidden := by
  have hanswers := query.answers rows
  have hsome : ∀ a ∈ query.order rows, (row a).isSome := by
    intro a ha
    have hdated := hrows a (hanswers.perm.mem_iff.mp ha)
    rw [← htime a] at hdated
    cases hrow : row a with
    | none =>
        rw [hrow] at hdated
        exact absurd rfl hdated
    | some r => rfl
  have hmono : ∀ a b r r', row a = some r → row b = some r' → orderBy.key a ≤ orderBy.key b →
      r.newest ≤ r'.newest := by
    intro a b r r' ha hb hab
    have hle := hkey a b hab
    rw [← htime a, ← htime b, ha, hb] at hle
    have hcreated : (r'.createdAt : WithTop Time) ≤ r.createdAt := hle
    exact OrderDual.toDual_le_toDual.mpr (WithTop.coe_le_coe.mp hcreated)
  have htake : (findMany query rows 0 cap).filterMap row =
      ((query.order rows).filterMap row).take cap := filterMap_take hsome cap
  rw [htake]
  exact ⟨_, (hanswers.filterMap hmono).fetched_take cap⟩

theorem fetched_map (query : QueryOrder orderBy) (rows : List α) (cap : ℕ) (row : α → MergeRow)
    (hmono : ∀ a b, orderBy.key a ≤ orderBy.key b → (row a).newest ≤ (row b).newest) :
    ∃ hidden, Fetched MergeRow.newest cap (rows.map row) ((findMany query rows 0 cap).map row)
      hidden := by
  have htake : (findMany query rows 0 cap).map row = ((query.order rows).map row).take cap :=
    List.map_take
  rw [htake]
  exact ⟨_, ((query.answers rows).map hmono).fetched_take cap⟩

-- Rows without the date that the feed shows are not looked at.
structure ActivityStreams.Dated (s : ActivityStreams) : Prop where
  completedQuests : ∀ c ∈ s.completedQuests, c.completedAt ≠ none
  achievements : ∀ a ∈ s.achievements, a.unlockedAt ≠ none

theorem dated_matching (db : ActivityTables) (friendIds : List Id) (before : Option Time) :
    (matching db friendIds before).Dated := by
  have hdated {t : Option Time} (ht : t.any (olderThan before) = true) : t ≠ none := by
    rintro rfl
    cases ht
  constructor
  · exact fun c hc => hdated (of_decide_eq_true (List.mem_filter.mp hc).2).2.2
  · exact fun a ha => hdated (of_decide_eq_true (List.mem_filter.mp ha).2).2

theorem mem_of_mem_findMany {query : QueryOrder orderBy} {skip take : ℕ} {a : α}
    (h : a ∈ findMany query rows skip take) : a ∈ rows :=
  (query.answers rows).perm.mem_iff.mp (List.mem_of_mem_drop (List.mem_of_mem_take h))

theorem ActivityStreams.Dated.fetch {s : ActivityStreams} (h : s.Dated) (orders : ActivityOrders)
    (cap : ℕ) : (s.fetch orders cap).Dated where
  completedQuests := fun c hc => h.completedQuests c (mem_of_mem_findMany hc)
  achievements := fun a ha => h.achievements a (mem_of_mem_findMany ha)

-- The queries fetch the first rows of each of the streams.
theorem exists_fetched (dates : DateTexts) (db : ActivityTables) (friendIds : List Id)
    (before : Option Time) (orders : ActivityOrders) (cap : ℕ) :
    ∃ hidden, Fetched MergeRow.newest cap ((matching db friendIds before).merged dates)
      (((matching db friendIds before).fetch orders cap).merged dates) hidden := by
  have hdated := dated_matching db friendIds before
  obtain ⟨_, h₁⟩ := fetched_filterMap orders.completedQuests cap (completedAt_row dates)
    (fun _ _ h => h) hdated.completedQuests
  obtain ⟨_, h₂⟩ := fetched_map orders.startedQuests (matching db friendIds before).startedQuests
    cap (startedRow dates) fun _ _ h => h
  obtain ⟨_, h₃⟩ := fetched_filterMap orders.achievements cap (unlockedAt_row dates)
    (fun _ _ h => h) hdated.achievements
  obtain ⟨_, h₄⟩ := fetched_map orders.levelUps (matching db friendIds before).levelUps
    cap (levelUpRow dates) fun _ _ h => h
  obtain ⟨_, h₅⟩ := fetched_map orders.placeVisits (matching db friendIds before).placeVisits
    cap (visitRow dates) fun _ _ h => h
  exact ⟨_, (((h₁.append h₂).append h₃).append h₄).append h₅⟩

end Fetched

section Page

def olderEvents (dates : DateTexts) (db : ActivityTables) (userId : Id) (before : Option Time) :
    List MergeRow := (friendEvents dates db userId).filter fun r => olderThan before r.createdAt

theorem answers_sortKey (rows : List MergeRow) :
    Answers MergeRow.newest rows (rows.insertionSort fun a b => a.sortKey ≤ b.sortKey) := by
  have hanswers := answers_insertionSort MergeRow.sortKey rows
  refine ⟨hanswers.perm, hanswers.sorted.imp fun hle => ?_⟩
  rcases Prod.Lex.le_iff.mp hle with hlt | ⟨heq, _⟩
  · exact hlt.le
  · exact heq.le

theorem merged_matching_nil (dates : DateTexts) (db : ActivityTables) (before : Option Time) :
    (matching db [] before).merged dates = [] := by
  simp [matching, ActivityStreams.merged]

-- The rows of a full stream are all in the merged list.
theorem ActivityStreams.Dated.le_length_merged {s : ActivityStreams} (hdated : s.Dated)
    (dates : DateTexts) {cap : ℕ} (h : s.hitCap cap = true) : cap ≤ (s.merged dates).length := by
  have hcompleted : (s.completedQuests.filterMap (completedRow dates)).length =
      s.completedQuests.length := by
    refine List.filterMap_length_eq_length.mpr fun c hc => ?_
    rw [← Option.isSome_map, completedAt_row]
    exact Option.isSome_iff_ne_none.mpr (hdated.completedQuests c hc)
  have hachievements : (s.achievements.filterMap (achievementRow dates)).length =
      s.achievements.length := by
    refine List.filterMap_length_eq_length.mpr fun a ha => ?_
    rw [← Option.isSome_map, unlockedAt_row]
    exact Option.isSome_iff_ne_none.mpr (hdated.achievements a ha)
  simp only [ActivityStreams.hitCap, Bool.or_eq_true, decide_eq_true_eq] at h
  simp only [ActivityStreams.merged, List.length_append, List.length_map, hcompleted, hachievements]
  omega

theorem lt_perStream (limit : ℤ) : feedLimit limit < perStream (feedLimit limit) := by
  unfold perStream feedLimit
  omega

theorem feedLimit_pos (limit : ℤ) : 0 < feedLimit limit := by
  unfold feedLimit
  omega

theorem pageOf_eq {s : ActivityStreams} {rows merged hidden answer : List MergeRow}
    {limit cap : ℕ} (hfetched : Fetched MergeRow.newest cap rows (s.merged dates) hidden)
    (hdated : s.Dated) (hcap : limit < cap) (hlimit : 0 < limit)
    (hmerged : merged.Perm (s.merged dates)) (htake : answer.take limit = merged.take limit) :
    pageOf limit merged (s.hitCap cap) =
      { items := (answer.take limit).map MergeRow.dto
        nextCursor :=
          if limit < rows.length then answer[limit - 1]?.map fun row => row.dto.createdAt
          else none } := by
  have hlength : limit < rows.length ↔ limit < merged.length := by
    rw [← hfetched.lt_length_iff hcap, hmerged.length_eq]
  have hmore : (decide (merged.length > limit) ||
      (decide ((merged.take limit).length = limit) && s.hitCap cap)) = true ↔
        limit < rows.length := by
    rw [hlength, Bool.or_eq_true, decide_eq_true_iff, Bool.and_eq_true]
    refine or_iff_left_of_imp fun ⟨_, hhit⟩ => ?_
    have hfull := hdated.le_length_merged dates hhit
    rw [← hmerged.length_eq] at hfull
    omega
  rw [pageOf, htake]
  congr 1
  rw [if_congr hmore rfl rfl]
  split
  · rename_i hlt
    rw [hlength] at hlt
    rw [List.getLast?_eq_getElem?, List.length_take_of_le hlt.le, ← htake,
      List.getElem?_take_of_lt (Nat.sub_one_lt_of_lt hlimit)]
  · rfl

-- A page shows the newest of the older events, and has a cursor exactly if there are more.
theorem activityFeed_eq (db : ActivityTables) (userId : Id) {options : ActivityOptions}
    (hcursor : parseCursor dates options.cursor = .ok before) (orders : ActivityOrders) :
    ∃ answer, Answers MergeRow.newest (olderEvents dates db userId before) answer ∧
      activityFeed dates db userId options orders = .ok
        { items := (answer.take (feedLimit options.limit)).map MergeRow.dto
          nextCursor :=
            if feedLimit options.limit < (olderEvents dates db userId before).length then
              answer[feedLimit options.limit - 1]?.map fun row => row.dto.createdAt
            else none } := by
  by_cases hfriends : acceptedFriendIds db.friendships.rows userId = []
  · have hnone : olderEvents dates db userId before = [] := by
      rw [olderEvents, friendEvents, hfriends, merged_matching_nil, List.filter_nil]
    rw [hnone]
    refine ⟨[], ⟨.nil, .nil⟩, ?_⟩
    rw [activityFeed, if_pos hfriends]
    simp only [List.take_nil, List.length_nil, Nat.not_lt_zero, if_false]
    rfl
  · have holder : olderEvents dates db userId before =
        (matching db (acceptedFriendIds db.friendships.rows userId) before).merged dates :=
      (merged_matching dates db _ before).symm
    obtain ⟨_, hfetched⟩ := exists_fetched dates db
      (acceptedFriendIds db.friendships.rows userId) before orders
      (perStream (feedLimit options.limit))
    rw [← holder] at hfetched
    have hcap := lt_perStream options.limit
    obtain ⟨answer, hanswer, htake⟩ :=
      hfetched.exists_answers hcap.le (answers_sortKey _)
    have hpage := pageOf_eq hfetched ((dated_matching db _ before).fetch orders _) hcap
      (feedLimit_pos options.limit) (answers_sortKey _).perm htake
    refine ⟨answer, hanswer, ?_⟩
    rw [activityFeed, if_neg hfriends, hcursor, ← hpage]
    rfl

end Page

-- A client that goes on with the cursor of each page as long as there is one.
inductive FeedWalk (feed : ℕ → Option String → Except ApiError ActivityPage) :
    ℕ → Option String → List FriendActivityDto → Prop
  | last {n : ℕ} {cursor : Option String} {page : ActivityPage} :
      feed n cursor = .ok page → page.nextCursor = none → FeedWalk feed n cursor page.items
  | next {n : ℕ} {cursor : Option String} {page : ActivityPage} {next : String}
      {rest : List FriendActivityDto} :
      feed n cursor = .ok page → page.nextCursor = some next →
        FeedWalk feed (n + 1) (some next) rest → FeedWalk feed n cursor (page.items ++ rest)

def NewestFirst (dates : DateTexts) (items : List FriendActivityDto) : Prop :=
  items.Pairwise fun a b =>
    ∀ t ∈ dates.parse a.createdAt, ∀ t' ∈ dates.parse b.createdAt, t' ≤ t

section Walk

variable {limit : ℤ} {orders : ℕ → ActivityOrders}

theorem parseCursor_toISOString {t : Time} (h : dates.RoundTrips t) :
    parseCursor dates (some (dates.toISOString t)) = .ok (some t) := by
  have htruthy : truthy (some (dates.toISOString t)) = some (dates.toISOString t) :=
    Option.filter_eq_some_iff.mpr ⟨rfl, decide_eq_true h.toISOString_ne⟩
  rw [parseCursor, htruthy]
  simp only [h.parse_toISOString]

-- The text that a row shows is that of its time.
theorem createdAt_dto {s : ActivityStreams} {row : MergeRow} (h : row ∈ s.merged dates) :
    row.dto.createdAt = dates.toISOString row.createdAt := by
  simp only [ActivityStreams.merged, List.mem_append, List.mem_filterMap, List.mem_map] at h
  rcases h with (((h | h) | h) | h) | h
  · obtain ⟨c, _, hrow⟩ := h
    obtain ⟨t, _, rfl⟩ := Option.map_eq_some_iff.mp hrow
    rfl
  · obtain ⟨c, _, rfl⟩ := h
    rfl
  · obtain ⟨a, _, hrow⟩ := h
    obtain ⟨t, _, rfl⟩ := Option.map_eq_some_iff.mp hrow
    rfl
  · obtain ⟨n, _, rfl⟩ := h
    rfl
  · obtain ⟨visit, _, rfl⟩ := h
    rfl

theorem olderEvents_none : olderEvents dates db userId none = friendEvents dates db userId :=
  List.filter_true _

theorem olderEvents_last {row : MergeRow} (h : row ∈ olderEvents dates db userId before) :
    olderEvents dates db userId (some row.createdAt) =
      (olderEvents dates db userId before).filter fun r => row.newest < r.newest := by
  have holder := (List.mem_filter.mp h).2
  rw [olderEvents, olderEvents, List.filter_filter]
  refine List.filter_congr fun r _ => ?_
  rw [Bool.eq_iff_iff, Bool.and_eq_true, decide_eq_true_iff]
  have hsome : olderThan (some row.createdAt) r.createdAt = true ↔ row.newest < r.newest := by
    rw [olderThan, Option.all_some, decide_eq_true_iff]
    exact OrderDual.toDual_lt_toDual.symm
  rw [hsome]
  refine (and_iff_left_of_imp fun hlt => ?_).symm
  cases before with
  | none => rfl
  | some b =>
      have hbefore : row.createdAt < b := of_decide_eq_true holder
      exact decide_eq_true ((OrderDual.toDual_lt_toDual.mp hlt).trans hbefore)

variable (hdates : ∀ row ∈ friendEvents dates db userId, dates.RoundTrips row.createdAt)

include hdates

-- A page is the last one, or its cursor leaves what is older than its last row.
theorem activityFeed_cases (limit : ℤ) {cursor : Option String}
    (hcursor : parseCursor dates cursor = .ok before) (orders : ActivityOrders) :
    ∃ answer page, Answers MergeRow.newest (olderEvents dates db userId before) answer ∧
      activityFeed dates db userId { limit, cursor } orders = .ok page ∧
      page.items = (answer.take (feedLimit limit)).map MergeRow.dto ∧
      ((olderEvents dates db userId before).length ≤ feedLimit limit ∧ page.nextCursor = none ∨
        feedLimit limit < (olderEvents dates db userId before).length ∧
          ∃ last, answer[feedLimit limit - 1]? = some last ∧
            page.nextCursor = some (dates.toISOString last.createdAt) ∧
            parseCursor dates page.nextCursor = .ok (some last.createdAt) ∧
            last ∈ olderEvents dates db userId before) := by
  let options : ActivityOptions := { limit, cursor }
  have holder : parseCursor dates options.cursor = .ok before := hcursor
  obtain ⟨answer, hanswer, hpage⟩ := activityFeed_eq db userId holder orders
  refine ⟨answer, _, hanswer, hpage, rfl, ?_⟩
  rcases Nat.lt_or_ge (feedLimit limit) (olderEvents dates db userId before).length with hlt | hle
  · right
    have hbound : feedLimit limit - 1 < answer.length := by
      rw [hanswer.length_eq]
      omega
    have hlast : answer[feedLimit limit - 1]? = some answer[feedLimit limit - 1] :=
      List.getElem?_eq_getElem hbound
    have hmem : answer[feedLimit limit - 1] ∈ olderEvents dates db userId before :=
      hanswer.perm.mem_iff.mp (List.getElem_mem hbound)
    have hevent := List.mem_of_mem_filter hmem
    have hnext : (if feedLimit limit < (olderEvents dates db userId before).length then
        answer[feedLimit limit - 1]?.map fun row => row.dto.createdAt else none) =
          some (dates.toISOString answer[feedLimit limit - 1].createdAt) := by
      rw [if_pos hlt, hlast, Option.map_some, createdAt_dto hevent]
    refine ⟨hlt, _, hlast, hnext, ?_, hmem⟩
    exact (congrArg _ hnext).trans (parseCursor_toISOString (hdates _ hevent))
  · exact Or.inl ⟨hle, if_neg (not_lt.mpr hle)⟩

theorem newestFirst_map {rows : List MergeRow} (hevents : rows ⊆ friendEvents dates db userId)
    (hsorted : rows.Pairwise fun a b => a.newest ≤ b.newest) :
    NewestFirst dates (rows.map MergeRow.dto) := by
  refine List.pairwise_map.mpr (hsorted.imp_of_mem ?_)
  intro a b ha hb hab t ht t' ht'
  have hparse {row : MergeRow} (hrow : row ∈ rows) :
      dates.parse row.dto.createdAt = some row.createdAt := by
    rw [createdAt_dto (hevents hrow), (hdates row (hevents hrow)).parse_toISOString]
  rw [hparse ha] at ht
  rw [hparse hb] at ht'
  cases ht
  cases ht'
  exact OrderDual.toDual_le_toDual.mp hab

-- Every call of a walk takes the next page of what is left.
theorem exists_feedWalk (limit : ℤ) (orders : ℕ → ActivityOrders) {cursor : Option String}
    (hcursor : parseCursor dates cursor = .ok before) (n : ℕ) : ∃ items,
      FeedWalk (fun n cursor => activityFeed dates db userId { limit, cursor } (orders n)) n cursor
        items := by
  induction hleft : (olderEvents dates db userId before).length using Nat.strong_induction_on
    generalizing n cursor before with
  | _ left ih =>
      obtain ⟨answer, page, hanswer, hpage, hitems, hcases⟩ :=
        activityFeed_cases hdates limit hcursor (orders n)
      rcases hcases with ⟨_, hend⟩ | ⟨_, last, hlast, hnext, hparse, hmem⟩
      · exact ⟨_, .last hpage hend⟩
      · have hfewer : (olderEvents dates db userId (some last.createdAt)).length < left := by
          rw [olderEvents_last hmem, ← hleft]
          refine List.length_filter_lt_length_iff_exists.mpr ⟨last, hmem, ?_⟩
          exact fun hlt => absurd (of_decide_eq_true hlt) (lt_irrefl _)
        rw [hnext] at hparse
        obtain ⟨rest, hrest⟩ := ih _ hfewer hparse (n + 1) rfl
        exact ⟨_, .next hpage hnext hrest⟩

theorem FeedWalk.cursorWalk {n : ℕ} {cursor : Option String} {items : List FriendActivityDto}
    (h : FeedWalk (fun n cursor => activityFeed dates db userId { limit, cursor } (orders n)) n cursor
      items) (hcursor : parseCursor dates cursor = .ok before) :
    ∃ rows, CursorWalk MergeRow.newest (feedLimit limit) (olderEvents dates db userId before) rows ∧
      items = rows.map MergeRow.dto := by
  induction h generalizing before with
  | @last n cursor page hfeed hend =>
      obtain ⟨answer, page', hanswer, hpage, hitems, hcases⟩ :=
        activityFeed_cases hdates limit hcursor (orders n)
      cases hfeed.symm.trans hpage
      rcases hcases with ⟨hle, _⟩ | ⟨_, last, _, hnext, _, _⟩
      · refine ⟨answer, .last hanswer hle, ?_⟩
        rw [hitems, List.take_of_length_le (hanswer.length_eq.trans_le hle)]
      · rw [hend] at hnext
        cases hnext
  | @next n cursor page next rest hfeed hmore _ ih =>
      obtain ⟨answer, page', hanswer, hpage, hitems, hcases⟩ :=
        activityFeed_cases hdates limit hcursor (orders n)
      cases hfeed.symm.trans hpage
      rcases hcases with ⟨_, hend⟩ | ⟨hlt, last, hlast, hnext, hparse, hmem⟩
      · rw [hend] at hmore
        cases hmore
      · rw [hmore] at hparse
        obtain ⟨rows, hrows, rfl⟩ := ih hparse
        rw [olderEvents_last hmem] at hrows
        refine ⟨answer.take (feedLimit limit) ++ rows, .next hanswer hlt hlast hrows, ?_⟩
        rw [hitems, List.map_append]

theorem FeedWalk.exists_rows {items : List FriendActivityDto} (h : FeedWalk
      (fun n cursor => activityFeed dates db userId { limit, cursor } (orders n)) 0 none items) :
    ∃ rows, CursorWalk MergeRow.newest (feedLimit limit) (friendEvents dates db userId) rows ∧
      items = rows.map MergeRow.dto := by
  rw [← olderEvents_none]
  exact h.cursorWalk hdates rfl

theorem FeedWalk.newestFirst {items : List FriendActivityDto} (h : FeedWalk
      (fun n cursor => activityFeed dates db userId { limit, cursor } (orders n)) 0 none items) :
    NewestFirst dates items := by
  obtain ⟨rows, hrows, rfl⟩ := h.exists_rows hdates
  have hlimit := feedLimit_pos limit
  exact newestFirst_map hdates (hrows.subperm hlimit).subset (hrows.sorted hlimit)

-- A walk shows every event once if no events of one millisecond stand on both sides of the
-- end of a page, and only then.
theorem FeedWalk.perm_iff {items : List FriendActivityDto} (h : FeedWalk
      (fun n cursor => activityFeed dates db userId { limit, cursor } (orders n)) 0 none items) :
    items.Perm ((friendEvents dates db userId).map MergeRow.dto) ↔
      BreaksClean (feedLimit limit) (sortedKeys MergeRow.newest (friendEvents dates db userId)) := by
  obtain ⟨rows, hrows, rfl⟩ := h.exists_rows hdates
  have hlimit := feedLimit_pos limit
  rw [← hrows.perm_iff hlimit]
  constructor
  · intro hperm
    have hlength := hperm.length_eq
    rw [List.length_map, List.length_map] at hlength
    exact (hrows.subperm hlimit).perm_of_length_le hlength.ge
  · exact fun hperm => hperm.map MergeRow.dto

-- The walk through the feed ends, and it shows every event once, newest first, exactly if
-- no events of one millisecond stand on both sides of the end of a page.
theorem feedWalk_complete_iff (limit : ℤ) (orders : ℕ → ActivityOrders) :
    (∃ items, FeedWalk
        (fun n cursor => activityFeed dates db userId { limit, cursor } (orders n)) 0 none items ∧
      items.Perm ((friendEvents dates db userId).map MergeRow.dto) ∧ NewestFirst dates items) ↔
      BreaksClean (feedLimit limit) (sortedKeys MergeRow.newest (friendEvents dates db userId)) := by
  constructor
  · rintro ⟨items, hwalk, hperm, _⟩
    exact (hwalk.perm_iff hdates).mp hperm
  · intro hclean
    have hstart : parseCursor dates none = .ok none := rfl
    obtain ⟨items, hwalk⟩ := exists_feedWalk hdates limit orders hstart 0
    exact ⟨items, hwalk, (hwalk.perm_iff hdates).mpr hclean, hwalk.newestFirst hdates⟩

end Walk

-- Ada and her friend Bob, who has reached two levels.
def levelUpsAt (t t' : Time) : ActivityTables where
  friendships := ⟨[{ id := 0, requesterId := 0, addresseeId := 1, status := .ACCEPTED, createdAt := 0 }],
    by decide⟩
  completions := Table.empty
  userAchievements := Table.empty
  notifications :=
    ⟨[{ id := 0, userId := 1, type := "LEVEL_UP", createdAt := t, user := { id := 1, username := "bob" },
        user_id := rfl },
      { id := 1, userId := 1, type := "LEVEL_UP", createdAt := t', user := { id := 1, username := "bob" },
        user_id := rfl }], by simp⟩
  checkIns := Table.empty

def firstMillis : DateTexts where
  toISOString t := if t = 0 then "1970-01-01T00:00:00.000Z" else "1970-01-01T00:00:00.001Z"
  parse text :=
    if text = "1970-01-01T00:00:00.000Z" then some 0
    else if text = "1970-01-01T00:00:00.001Z" then some 1
    else none

theorem roundTrips_levelUpsAt {t t' : Time} (ht : t = 0 ∨ t = 1) (ht' : t' = 0 ∨ t' = 1) :
    ∀ row ∈ friendEvents firstMillis (levelUpsAt t t') 0, firstMillis.RoundTrips row.createdAt := by
  have htrips {t : Time} (h : t = 0 ∨ t = 1) : firstMillis.RoundTrips t := by
    rcases h with rfl | rfl
    · exact ⟨by decide, by decide⟩
    · exact ⟨by decide, by decide⟩
  intro row hrow
  have htimes : row.createdAt ∈ [t, t'] := List.mem_map_of_mem (f := MergeRow.createdAt) hrow
  rcases List.mem_pair.mp htimes with h | h
  · exact h ▸ htrips ht
  · exact h ▸ htrips ht'

def insertionOrder {α : Type} (orderBy : OrderBy α) : QueryOrder orderBy where
  order rows := rows.insertionSort fun a b => orderBy.key a ≤ orderBy.key b
  answers := answers_insertionSort orderBy.key

def insertionOrders : ActivityOrders :=
  ⟨insertionOrder _, insertionOrder _, insertionOrder _, insertionOrder _, insertionOrder _⟩

def twoLevels (t t' : Time) (_ : ℕ) (cursor : Option String) : Except ApiError ActivityPage :=
  activityFeed firstMillis (levelUpsAt t t') 0 { limit := 1, cursor } insertionOrders

theorem feedWalk_complete_twoLevels :
    ∃ items, FeedWalk (twoLevels 0 1) 0 none items ∧
      items.Perm ((friendEvents firstMillis (levelUpsAt 0 1) 0).map MergeRow.dto) ∧
      NewestFirst firstMillis items := by
  have htimes : ((friendEvents firstMillis (levelUpsAt 0 1) 0).map MergeRow.newest).Nodup := by
    decide
  have hclean := breaksClean_of_nodup 1 (nodup_sortedKeys htimes)
  exact (feedWalk_complete_iff (roundTrips_levelUpsAt (Or.inl rfl) (Or.inr rfl)) 1
    fun _ => insertionOrders).mpr hclean

-- With both levels in one millisecond the first one is never shown.
theorem not_feedWalk_complete_twoLevels :
    ¬ ∃ items, FeedWalk (twoLevels 0 0) 0 none items ∧
      items.Perm ((friendEvents firstMillis (levelUpsAt 0 0) 0).map MergeRow.dto) ∧
      NewestFirst firstMillis items := by
  rintro ⟨items, hwalk, hperm, _⟩
  have hdates := roundTrips_levelUpsAt (Or.inl rfl) (Or.inl rfl)
  have hclean := (hwalk.perm_iff hdates).mp hperm
  have hkeys : sortedKeys MergeRow.newest (friendEvents firstMillis (levelUpsAt 0 0) 0) =
      [OrderDual.toDual (0 : Time), OrderDual.toDual (0 : Time)] := rfl
  have hcut := hclean 1
  rw [hkeys] at hcut
  exact hcut List.mem_cons_self List.mem_cons_self

-- The caps of the streams hide nothing: a page is what a page of all the older events would
-- be, and has a cursor exactly if there are more.
theorem activityFeed_newest (dates : DateTexts) (db : ActivityTables) (userId : Id)
    (options : ActivityOptions) (orders : ActivityOrders)
    (hcursor : parseCursor dates options.cursor = .ok before) :
    ∃ (page : ActivityPage) (rows leftOut : List MergeRow), activityFeed dates db userId options orders = .ok page ∧
      page.items = rows.map MergeRow.dto ∧
      (rows ++ leftOut).Perm (olderEvents dates db userId before) ∧
      page.items.length = min (feedLimit options.limit) (olderEvents dates db userId before).length ∧
      rows.Pairwise (fun r r' => r'.createdAt ≤ r.createdAt) ∧
      (∀ r ∈ rows, ∀ r' ∈ leftOut, r'.createdAt ≤ r.createdAt) ∧
      (page.nextCursor.isSome ↔
        feedLimit options.limit < (olderEvents dates db userId before).length) := by
  obtain ⟨answer, hanswer, hpage⟩ := activityFeed_eq db userId hcursor orders
  have hlimit := feedLimit_pos options.limit
  have hsplit := hanswer.sorted
  rw [← List.take_append_drop (feedLimit options.limit) answer] at hsplit
  obtain ⟨hhead, _, hcross⟩ := List.pairwise_append.mp hsplit
  refine ⟨_, answer.take (feedLimit options.limit), answer.drop (feedLimit options.limit), hpage, rfl,
    ?_, ?_, hhead.imp OrderDual.toDual_le_toDual.mp,
    fun r hr r' hr' => OrderDual.toDual_le_toDual.mp (hcross r hr r' hr'), ?_⟩
  · rw [List.take_append_drop]
    exact hanswer.perm
  · rw [List.length_map, List.length_take, hanswer.length_eq]
  · by_cases hmore : feedLimit options.limit < (olderEvents dates db userId before).length
    · have hlast : feedLimit options.limit - 1 < answer.length := by
        rw [hanswer.length_eq]
        omega
      refine iff_of_true ?_ hmore
      dsimp only
      rw [if_pos hmore, List.getElem?_eq_getElem hlast]
      rfl
    · refine iff_of_false ?_ hmore
      dsimp only
      rw [if_neg hmore]
      exact Bool.false_ne_true

theorem activityFeed_newest_twoLevels :
    ∃ (page : ActivityPage) (rows leftOut : List MergeRow), twoLevels 0 1 0 none = .ok page ∧
      page.items = rows.map MergeRow.dto ∧
      (rows ++ leftOut).Perm (olderEvents firstMillis (levelUpsAt 0 1) 0 none) ∧
      page.items.length = min 1 2 ∧
      rows.Pairwise (fun r r' => r'.createdAt ≤ r.createdAt) ∧
      (∀ r ∈ rows, ∀ r' ∈ leftOut, r'.createdAt ≤ r.createdAt) ∧
      (page.nextCursor.isSome ↔ 1 < 2) :=
  activityFeed_newest firstMillis (levelUpsAt 0 1) 0 { limit := 1 } insertionOrders rfl

end FriendshipsService

end SideQuest
