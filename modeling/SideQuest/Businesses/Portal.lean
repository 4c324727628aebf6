import SideQuest.Model.Business

-- The two reports of the partner portal agree with each other, and neither looks at the
-- rows of another business.

namespace SideQuest

open BusinessPortalRepository BusinessesService

-- Two ranges of one length up to `now`, with nothing between them.
structure Windows.Adjacent (w : Windows) (now : Time) : Prop where
  upToNow : w.current.endExclusive = now
  adjacent : w.previous.endExclusive = w.current.start
  ordered : w.current.start ≤ w.current.endExclusive
  sameLength : w.previous.endExclusive - w.previous.start = w.current.endExclusive - w.current.start

section Windows

theorem one_le_getUTCDate (t : Time) : 1 ≤ LeaderboardService.getUTCDate t := by
  unfold LeaderboardService.getUTCDate
  dsimp only
  generalize LeaderboardService.utcDays t = days
  omega

theorem startOfUtcMonth_le (now : Time) : startOfUtcMonth now ≤ now := by
  have hdate := one_le_getUTCDate now
  unfold startOfUtcMonth LeaderboardService.utcDays LeaderboardService.msPerDay
  simp only [Time] at *
  omega

theorem currentAndPreviousWindow_adjacent (period : BusinessMetricsPeriod) (now : Time) :
    (currentAndPreviousWindow period now).Adjacent now := by
  unfold currentAndPreviousWindow
  split
  · have hstart := startOfUtcMonth_le now
    exact ⟨rfl, rfl, hstart, by dsimp only; rw [max_eq_right (sub_nonneg.mpr hstart)]; ring⟩
  · have hlength : 0 ≤ period.days * LeaderboardService.msPerDay := by
      cases period <;> decide
    exact ⟨rfl, rfl, sub_le_self _ hlength, by ring⟩

-- Every instant of the two windows lies in exactly one of them.
theorem Windows.Adjacent.covers {w : Windows} {now t : Time} (h : w.Adjacent now) :
    (w.previous.start ≤ t ∧ t < now) ↔
      (w.current.covers t = true ∧ w.previous.covers t = false) ∨
        (w.current.covers t = false ∧ w.previous.covers t = true) := by
  obtain ⟨hnow, hadjacent, hordered, hlength⟩ := h
  simp only [DateRange.covers, decide_eq_true_eq, decide_eq_false_iff_not, Time] at *
  omega

end Windows

section Rounding

theorem mathRound_nonneg {x : ℚ} (h : 0 ≤ x) : 0 ≤ mathRound x := Int.floor_nonneg.mpr (by positivity)

theorem mathRound_le {x : ℚ} {n : ℕ} (h : x ≤ n) : mathRound x ≤ n := by
  refine Int.lt_add_one_iff.mp (Int.floor_lt.mpr ?_)
  push_cast
  linarith

theorem round2_nonneg {x : ℚ} (h : 0 ≤ x) : 0 ≤ round2 x := by
  have hhundred := Double.round_nonneg (mul_nonneg (Double.round_nonneg h) (by decide : (0 : ℚ) ≤ 100))
  have hsteps : (0 : ℚ) ≤ mathRound (Double.round (Double.round x * 100)) := by
    exact_mod_cast mathRound_nonneg hhundred
  exact Double.round_nonneg (div_nonneg hsteps (by decide))

theorem round2_le {x : ℚ} {n : ℕ} (hn : n * 100 < 2 ^ 53) (h : x ≤ n) : round2 x ≤ n := by
  have hx := Double.round_le_natCast (by omega) h
  have hhundred : Double.round (Double.round x * 100) ≤ (n * 100 : ℕ) := by
    refine Double.round_le_natCast hn ?_
    push_cast
    linarith
  have hsteps : (mathRound (Double.round (Double.round x * 100)) : ℚ) ≤ n * 100 := by
    exact_mod_cast mathRound_le hhundred
  refine Double.round_le_natCast (by omega) ?_
  linarith

end Rounding

variable {db : PortalDb} {businessId : Id} {range : DateRange}

theorem repeatVisitorPercent_bounds (db : PortalDb) (businessId : Id) (range : DateRange) :
    0 ≤ repeatVisitorPercent db businessId range ∧ repeatVisitorPercent db businessId range ≤ 100 := by
  unfold repeatVisitorPercent
  dsimp only
  generalize (visitors db businessId range).dedup = distinct
  have hle : (distinct.countP fun u => 1 < (visitors db businessId range).count u) ≤
      distinct.length := List.countP_le_length
  refine ⟨round2_nonneg ?_, round2_le (n := 100) (by decide) ?_⟩
  · split
    · exact le_rfl
    · positivity
  · split
    · norm_num
    · rename_i hpos
      have hlength : (0 : ℚ) < distinct.length := by exact_mod_cast Nat.pos_of_ne_zero hpos
      have hshare : ((distinct.countP fun u => 1 < (visitors db businessId range).count u : ℕ) : ℚ) /
          distinct.length ≤ 1 := (div_le_one hlength).mpr (by exact_mod_cast hle)
      push_cast
      linarith

section TopQuests

-- The quests of the business.
def ownQuests (db : PortalDb) (businessId : Id) : List PartnerQuest :=
  db.quests.rows.filter fun q => q.businessId = some businessId

variable (db businessId) in
-- What is counted quest by quest is counted once for each row of a quest of the business.
theorem sum_counts {β κ : Type} {key : β → κ} (t : Table key) (questOf : β → Option Id)
    (p : β → Bool) :
    ((ownQuests db businessId).map fun q => t.count fun b => questOf b = some q.id ∧ p b).sum =
      t.count fun b => p b ∧ (questOf b).any (ofBusiness db businessId) := by
  let share (b : β) (q : PartnerQuest) : ℕ := if q.businessId = some businessId ∧ p b then 1 else 0
  have hquest (q : PartnerQuest) : (if decide (q.businessId = some businessId) then
      t.count (fun b => questOf b = some q.id ∧ p b) else 0) =
        t.sum fun b => if questOf b = some q.id then share b q else 0 := by
    simp only [Table.count_eq_sum, share, decide_eq_true_eq]
    split_ifs with hown
    · exact Table.sum_congr fun b _ => by by_cases hid : questOf b = some q.id <;> simp [hid, hown]
    · exact (Table.sum_eq_zero fun b _ => by simp [hown]).symm
  have hrow (b : β) : (db.quests.sum fun q => if questOf b = some q.id then share b q else 0) =
      if decide (p b ∧ (questOf b).any (ofBusiness db businessId)) then 1 else 0 := by
    cases questOf b with
    | none => simp [Table.sum]
    | some questId =>
        have hkey : (db.quests.sum fun q => if some questId = some q.id then share b q else 0) =
            db.quests.sum fun q => if q.id = questId then share b q else 0 :=
          Table.sum_congr fun q _ => by simp only [Option.some.injEq, eq_comm]
        rw [hkey, Table.sum_single, Option.any_some, ofBusiness]
        cases db.quests.find? questId with
        | none => simp
        | some q => simp [share, and_comm]
  calc ((ownQuests db businessId).map fun q => t.count fun b => questOf b = some q.id ∧ p b).sum
      = db.quests.sum fun q => t.sum fun b => if questOf b = some q.id then share b q else 0 := by
        rw [ownQuests, Table.sum_filter]
        exact Table.sum_congr fun q _ => hquest q
    _ = t.sum fun b => db.quests.sum fun q => if questOf b = some q.id then share b q else 0 :=
        Table.sum_comm _ _ _
    _ = t.count fun b => p b ∧ (questOf b).any (ofBusiness db businessId) := by
        rw [Table.count_eq_sum]
        exact Table.sum_congr fun b _ => hrow b

theorem sum_completions (db : PortalDb) (businessId : Id) (range : DateRange) :
    ((ownQuests db businessId).map fun q => (topQuestRow db businessId range q).completions).sum =
      countQuestCompletions db businessId range := by
  have hcounts := sum_counts db businessId db.completions
    (fun c => some c.questId) (completedIn range)
  simpa [topQuestRow, countQuestCompletions] using hcounts

-- A visit may belong to no quest, or to one of another business.
theorem sum_visits_le (db : PortalDb) (businessId : Id) (range : DateRange) :
    ((ownQuests db businessId).map fun q => (topQuestRow db businessId range q).visits).sum ≤
      countVisits db businessId range := by
  have hcounts := sum_counts db businessId db.visits BusinessVisit.questId
    fun v => v.businessId = businessId ∧ range.covers v.createdAt
  simp only [decide_eq_true_eq] at hcounts
  refine hcounts.trans_le (List.countP_mono_left fun v _ hv => ?_)
  exact decide_eq_true (of_decide_eq_true hv).1

-- What is listed is part of the whole.
theorem sum_take_le {α : Type} (f : α → ℕ) {l l' : List α} (h : l.Perm l') (n : ℕ) :
    ((l.take n).map f).sum ≤ (l'.map f).sum := by
  rw [← (h.map f).sum_eq]
  exact ((List.take_sublist n l).map f).sum_le_sum fun _ _ => Nat.zero_le _

end TopQuests

-- The reports of one business, period and moment, with the titles in the order `texts`.
structure Agree (texts : OrderBy String) (db : PortalDb) (business : Business)
    (period : BusinessMetricsPeriod) (now : Time) (limit : ℕ) (metrics : BusinessMetricsDto)
    (quests : List BusinessTopQuestDto) : Prop where
  windows : (currentAndPreviousWindow period now).Adjacent now
  length : quests.length = min limit (ownQuests db business.id).length
  sorted : quests.Pairwise fun a b => b.visits < a.visits ∨ (b.visits = a.visits ∧
    (b.completions < a.completions ∨
      (b.completions = a.completions ∧ texts.key a.title ≤ texts.key b.title)))
  visits : ((quests.map BusinessTopQuestDto.visits).sum : ℚ) ≤ metrics.monthlyVisits.value
  completions :
    ((quests.map BusinessTopQuestDto.completions).sum : ℚ) ≤ metrics.questCompletions.value
  whole : (ownQuests db business.id).length ≤ limit →
    ((quests.map BusinessTopQuestDto.completions).sum : ℚ) = metrics.questCompletions.value
  repeatVisitors : 0 ≤ metrics.repeatVisitors.value ∧ metrics.repeatVisitors.value ≤ 100

section Reports

-- No two businesses of the owner have been created in one millisecond.
def CreatedApart (db : PortalDb) (ownerId : Id) : Prop :=
  ∀ b ∈ db.businesses.rows, ∀ b' ∈ db.businesses.rows, b.ownerId = some ownerId →
    b'.ownerId = some ownerId → b.createdAt = b'.createdAt → b = b'

variable (owned owned' : QueryOrder ownerOrderBy) {texts : OrderBy String}
  (top : QueryOrder (topQuestsOrderBy texts)) (db : PortalDb) (now : Time) (ownerId : Id)
  (period : Option BusinessMetricsPeriod) (limit : ℕ) {business : Business}

variable {db ownerId} in
-- Every query finds the same business then.
theorem findByOwnerId_unique (hdb : CreatedApart db ownerId) :
    findByOwnerId owned db ownerId = findByOwnerId owned' db ownerId := by
  have hsame := (owned.answers (db.businesses.rows.filter fun b => b.ownerId = some ownerId)).unique
    (owned'.answers _) fun b hb b' hb' hkey => by
      obtain ⟨hmem, hown⟩ := List.mem_filter.mp hb
      obtain ⟨hmem', hown'⟩ := List.mem_filter.mp hb'
      exact hdb b hmem b' hmem' (of_decide_eq_true hown) (of_decide_eq_true hown')
        (OrderDual.toDual_inj.mp hkey)
  exact congrArg List.head? hsame

theorem getMetrics_eq (h : findByOwnerId owned db ownerId = some business) :
    getMetrics owned db now ownerId period = .ok
      { period := period.getD .THIRTY_D
        monthlyVisits := overWindows (currentAndPreviousWindow (period.getD .THIRTY_D) now) wrapPct
          fun r => countVisits db business.id r
        questCompletions := overWindows (currentAndPreviousWindow (period.getD .THIRTY_D) now) wrapPct
          fun r => countQuestCompletions db business.id r
        avgRating := overWindows (currentAndPreviousWindow (period.getD .THIRTY_D) now) wrapAbs
          fun r => averageRatingInPeriod db business.id r
        repeatVisitors := overWindows (currentAndPreviousWindow (period.getD .THIRTY_D) now) wrapPct
          fun r => repeatVisitorPercent db business.id r } := by
  unfold getMetrics requireOwnedBusiness
  rw [h]
  rfl

theorem getTopQuests_eq (h : findByOwnerId owned db ownerId = some business) :
    getTopQuests owned top db now ownerId period limit = .ok ((listTopQuests db business.id
      (currentAndPreviousWindow (period.getD .THIRTY_D) now).current top limit).map
        toTopQuest) := by
  unfold getTopQuests requireOwnedBusiness
  rw [h]
  rfl

variable {db ownerId} in
-- Two requests at one moment, each with its own queries.
theorem reports_agree (hdb : CreatedApart db ownerId) :
    match findByOwnerId owned db ownerId with
    | none => ∃ e, getMetrics owned db now ownerId period = .error e ∧
        getTopQuests owned' top db now ownerId period limit = .error e
    | some business => ∃ metrics quests, getMetrics owned db now ownerId period = .ok metrics ∧
        getTopQuests owned' top db now ownerId period limit = .ok quests ∧
          Agree texts db business (period.getD .THIRTY_D) now limit metrics quests := by
  have howner := findByOwnerId_unique owned owned' hdb
  cases h : findByOwnerId owned db ownerId with
  | none =>
      have h' := howner.symm.trans h
      exact ⟨_, by unfold getMetrics requireOwnedBusiness; rw [h]; rfl,
        by unfold getTopQuests requireOwnedBusiness; rw [h']; rfl⟩
  | some business =>
      refine ⟨_, _, getMetrics_eq owned db now ownerId period h,
        getTopQuests_eq owned' top db now ownerId period limit (howner.symm.trans h), ?_⟩
      let range := (currentAndPreviousWindow (period.getD .THIRTY_D) now).current
      let rows := (ownQuests db business.id).map (topQuestRow db business.id range)
      have hanswers := top.answers rows
      have htop : listTopQuests db business.id range top limit = (top.order rows).take limit := rfl
      have hvisits : (rows.map TopQuestSqlRow.visits).sum ≤ countVisits db business.id range := by
        rw [List.map_map]
        exact sum_visits_le db business.id range
      have hcompletions : (rows.map TopQuestSqlRow.completions).sum =
          countQuestCompletions db business.id range := by
        rw [List.map_map]
        exact sum_completions db business.id range
      refine ⟨currentAndPreviousWindow_adjacent _ now, ?_, ?_, ?_, ?_, fun hfew => ?_,
        repeatVisitorPercent_bounds _ _ _⟩
      · rw [List.length_map, htop, List.length_take, hanswers.perm.length_eq, List.length_map]
      · rw [List.pairwise_map, htop]
        refine (hanswers.sorted.sublist (List.take_sublist _ _)).imp fun hle => ?_
        rcases Prod.Lex.le_iff.mp hle with hmore | ⟨hsame, hle⟩
        · exact Or.inl hmore
        · refine Or.inr ⟨OrderDual.toDual_inj.mp hsame.symm, ?_⟩
          rcases Prod.Lex.le_iff.mp hle with hmore | ⟨hsame, hle⟩
          · exact Or.inl hmore
          · exact Or.inr ⟨OrderDual.toDual_inj.mp hsame.symm, hle⟩
      · rw [List.map_map, htop]
        have hsum := (sum_take_le TopQuestSqlRow.visits hanswers.perm limit).trans hvisits
        exact Nat.cast_le.mpr hsum
      · rw [List.map_map, htop]
        have hsum := (sum_take_le TopQuestSqlRow.completions hanswers.perm limit).trans_eq hcompletions
        exact Nat.cast_le.mpr hsum
      · rw [List.map_map, htop, List.take_of_length_le (by
          rw [hanswers.perm.length_eq, List.length_map]; exact hfew)]
        have hsum := (hanswers.perm.map TopQuestSqlRow.completions).sum_eq.trans hcompletions
        exact congrArg Nat.cast hsum

end Reports

section Isolation

-- The databases have the same rows that belong to the business.
structure SameRows (businessId : Id) (db db' : PortalDb) : Prop where
  visits : db.visits.rows.filter (fun v => v.businessId = businessId) =
    db'.visits.rows.filter fun v => v.businessId = businessId
  quests : ownQuests db businessId = ownQuests db' businessId
  completions : db.completions.rows.filter (fun c => ofBusiness db businessId c.questId) =
    db'.completions.rows.filter fun c => ofBusiness db' businessId c.questId
  ratings : db.ratings.rows.filter (fun r => ofBusiness db businessId r.questId) =
    db'.ratings.rows.filter fun r => ofBusiness db' businessId r.questId

variable {db db' : PortalDb} {businessId : Id} (h : SameRows businessId db db') (range : DateRange)

include h

theorem SameRows.countVisits : countVisits db businessId range = countVisits db' businessId range := by
  have hfilter (d : PortalDb) : BusinessPortalRepository.countVisits d businessId range =
      (d.visits.rows.filter fun v => v.businessId = businessId).countP
        fun v => range.covers v.createdAt := by
    rw [List.countP_filter]
    exact List.countP_congr fun v _ => by simp [and_comm]
  rw [hfilter, hfilter, h.visits]

theorem SameRows.countQuestCompletions :
    countQuestCompletions db businessId range = countQuestCompletions db' businessId range := by
  have hfilter (d : PortalDb) : BusinessPortalRepository.countQuestCompletions d businessId range =
      (d.completions.rows.filter fun c => ofBusiness d businessId c.questId).countP
        (completedIn range) := by
    rw [List.countP_filter]
    exact List.countP_congr fun c _ => by simp
  rw [hfilter, hfilter, h.completions]

theorem SameRows.averageRatingInPeriod :
    averageRatingInPeriod db businessId range = averageRatingInPeriod db' businessId range := by
  have hfilter (d : PortalDb) : scoresIn d businessId range =
      ((d.ratings.rows.filter fun r => ofBusiness d businessId r.questId).filter
        fun r => range.covers r.createdAt).map fun r => r.score := by
    rw [scoresIn, List.filter_filter]
    congr 2
    ext r
    simp [Bool.and_comm]
  unfold BusinessPortalRepository.averageRatingInPeriod
  rw [hfilter, hfilter, h.ratings]

theorem SameRows.repeatVisitorPercent :
    repeatVisitorPercent db businessId range = repeatVisitorPercent db' businessId range := by
  have hfilter (d : PortalDb) : visitors d businessId range =
      ((d.visits.rows.filter fun v => v.businessId = businessId).filter
        fun v => range.covers v.createdAt).filterMap BusinessVisit.userId := by
    rw [visitors, List.filter_filter]
    congr 2
    ext v
    simp [Bool.and_comm]
  unfold BusinessPortalRepository.repeatVisitorPercent
  rw [hfilter, hfilter, h.visits]

omit h in
-- Rows that a count leaves out anyway may be left out before.
theorem countP_filter_of_imp {α : Type} {p f : α → Bool} (l : List α)
    (hpf : ∀ a, p a = true → f a = true) :
    (l.filter f).countP p = l.countP p := by
  rw [List.countP_filter]
  refine List.countP_congr fun a _ => ?_
  rw [Bool.and_eq_true]
  exact ⟨And.left, fun ha => ⟨ha, hpf a ha⟩⟩

omit h in
theorem ofBusiness_of_mem {d : PortalDb} {q : PartnerQuest} (hq : q ∈ ownQuests d businessId) :
    ofBusiness d businessId q.id = true := by
  obtain ⟨hmem, hown⟩ := List.mem_filter.mp hq
  unfold ofBusiness
  rw [Table.find?_of_mem hmem]
  exact hown

theorem SameRows.topQuestRow {q : PartnerQuest} (hq : q ∈ ownQuests db businessId) :
    topQuestRow db businessId range q = topQuestRow db' businessId range q := by
  have hvisits (d : PortalDb) : (BusinessPortalRepository.topQuestRow d businessId range q).visits =
      (d.visits.rows.filter fun v => v.businessId = businessId).countP fun v =>
        v.questId = some q.id ∧ v.businessId = businessId ∧ range.covers v.createdAt :=
    (countP_filter_of_imp _ fun v hv => decide_eq_true (of_decide_eq_true hv).2.1).symm
  have hcompletions (d : PortalDb) (hd : q ∈ ownQuests d businessId) :
      (BusinessPortalRepository.topQuestRow d businessId range q).completions =
        (d.completions.rows.filter fun c => ofBusiness d businessId c.questId).countP fun c =>
          c.questId = q.id ∧ completedIn range c := by
    refine (countP_filter_of_imp _ fun c hc => ?_).symm
    rw [(of_decide_eq_true hc).1]
    exact ofBusiness_of_mem hd
  have hsame := hvisits db
  rw [h.visits, ← hvisits db'] at hsame
  have hsame' := hcompletions db hq
  rw [h.completions, ← hcompletions db' (h.quests ▸ hq)] at hsame'
  calc BusinessPortalRepository.topQuestRow db businessId range q
      = ⟨q.id, q.title, (BusinessPortalRepository.topQuestRow db businessId range q).visits,
          (BusinessPortalRepository.topQuestRow db businessId range q).completions, q.ratingAvg,
          q.ratingCount⟩ := rfl
    _ = BusinessPortalRepository.topQuestRow db' businessId range q := by rw [hsame, hsame']; rfl

theorem SameRows.topQuestRows :
    (ownQuests db businessId).map (BusinessPortalRepository.topQuestRow db businessId range) =
      (ownQuests db' businessId).map (BusinessPortalRepository.topQuestRow db' businessId range) := by
  rw [← h.quests]
  exact List.map_congr_left fun q hq => h.topQuestRow range hq

end Isolation

-- Where a row stands in the list, which shares its place with rows that tie with it.
def place (texts : OrderBy String) (d : BusinessTopQuestDto) : ℕ × ℕ × texts.κ :=
  (d.visits, d.completions, texts.key d.title)

-- No two quests of the business have the same visits, completions and title.
def NoTies (texts : OrderBy String) (db : PortalDb) (businessId : Id) (range : DateRange) : Prop :=
  ∀ q ∈ ownQuests db businessId, ∀ q' ∈ ownQuests db businessId,
    place texts (toTopQuest (topQuestRow db businessId range q)) =
      place texts (toTopQuest (topQuestRow db businessId range q')) → q = q'

section Isolation

variable {texts : OrderBy String} (top top' : QueryOrder (topQuestsOrderBy texts)) {db db' : PortalDb}
  {businessId : Id} (h : SameRows businessId db db') (range : DateRange) (limit : ℕ)

include h

theorem SameRows.places :
    ((listTopQuests db businessId range top limit).map toTopQuest).map (place texts) =
      ((listTopQuests db' businessId range top' limit).map toTopQuest).map (place texts) := by
  have hkeys (d : PortalDb) (order : QueryOrder (topQuestsOrderBy texts)) :
      ((listTopQuests d businessId range order limit).map toTopQuest).map (place texts) =
        ((Paging.sortedKeys (topQuestsOrderBy texts).key ((ownQuests d businessId).map
          (BusinessPortalRepository.topQuestRow d businessId range))).take limit).map
            fun k => ((ofLex k).1.ofDual, (ofLex (ofLex k).2).1.ofDual, (ofLex (ofLex k).2).2) := by
    rw [← (order.answers _).map_key, ← List.map_take, List.map_map, List.map_map]
    rfl
  rw [hkeys, hkeys, h.topQuestRows range]

theorem SameRows.listTopQuests (hties : NoTies texts db businessId range) :
    listTopQuests db businessId range top limit = listTopQuests db' businessId range top' limit := by
  have hsame := (top.answers _).unique (top'.answers ((ownQuests db businessId).map
    (BusinessPortalRepository.topQuestRow db businessId range))) fun row hrow row' hrow' hkey => by
      obtain ⟨q, hq, rfl⟩ := List.mem_map.mp hrow
      obtain ⟨q', hq', rfl⟩ := List.mem_map.mp hrow'
      obtain ⟨hvisits, hrest⟩ := Prod.mk.inj (toLex_inj.mp hkey)
      obtain ⟨hcompletions, htitle⟩ := Prod.mk.inj (toLex_inj.mp hrest)
      rw [hties q hq q' hq' (Prod.ext (OrderDual.toDual_inj.mp hvisits)
        (Prod.ext (OrderDual.toDual_inj.mp hcompletions) htitle))]
  exact congrArg (List.take limit) (hsame.trans (congrArg top'.order (h.topQuestRows range)))

end Isolation

-- The reports do not change with the rows of anyone else: two databases with the same
-- businesses of the owner and the same rows of the one that is reported on, and any orders
-- of their queries. Quests that tie may trade places.
theorem reports_isolated (owned owned' : QueryOrder ownerOrderBy) {texts : OrderBy String}
    (top top' : QueryOrder (topQuestsOrderBy texts)) {db db' : PortalDb} {ownerId : Id}
    (hdb : CreatedApart db ownerId)
    (hbusinesses : db.businesses.rows.filter (fun b => b.ownerId = some ownerId) =
      db'.businesses.rows.filter fun b => b.ownerId = some ownerId)
    (hrows : ∀ business ∈ findByOwnerId owned db ownerId, SameRows business.id db db')
    (now : Time) (period : Option BusinessMetricsPeriod) (limit : ℕ) :
    getMetrics owned db now ownerId period = getMetrics owned' db' now ownerId period ∧
      (getTopQuests owned top db now ownerId period limit).map (List.map (place texts)) =
        (getTopQuests owned' top' db' now ownerId period limit).map (List.map (place texts)) ∧
      ((∀ business ∈ findByOwnerId owned db ownerId, NoTies texts db business.id
          (currentAndPreviousWindow (period.getD .THIRTY_D) now).current) →
        getTopQuests owned top db now ownerId period limit =
          getTopQuests owned' top' db' now ownerId period limit) := by
  have howner : findByOwnerId owned db ownerId = findByOwnerId owned' db' ownerId := by
    rw [findByOwnerId_unique owned owned' hdb]
    unfold findByOwnerId
    rw [hbusinesses]
  cases h : findByOwnerId owned db ownerId with
  | none =>
      have h' := howner.symm.trans h
      unfold getMetrics getTopQuests requireOwnedBusiness
      rw [h, h']
      exact ⟨rfl, rfl, fun _ => rfl⟩
  | some business =>
      have h' := howner.symm.trans h
      have hsame := hrows business h
      rw [getMetrics_eq owned db now ownerId period h, getMetrics_eq owned' db' now ownerId period h',
        getTopQuests_eq owned top db now ownerId period limit h,
        getTopQuests_eq owned' top' db' now ownerId period limit h']
      refine ⟨?_, ?_, fun hties => ?_⟩
      · simp only [overWindows, hsame.countVisits, hsame.countQuestCompletions,
          hsame.averageRatingInPeriod, hsame.repeatVisitorPercent]
      · exact congrArg Except.ok (hsame.places top top' _ limit)
      · rw [hsame.listTopQuests top top' _ limit (hties business rfl)]

def castle : Business :=
  { id := 10, slug := "castle", name := "Castle", ownerId := some 1, createdAt := 0 }

def castleAlone : PortalDb where
  businesses := Table.empty.insert castle
  visits := Table.empty.insert { id := 1, businessId := 10, userId := some 5, createdAt := 50 }
  quests := Table.empty.insert { id := 7, title := "Walls", businessId := some 10 }
  completions := Table.empty.insert
    { userId := 5, questId := 7, status := .COMPLETED, startedAt := 10, completedAt := some 60 }
  ratings := Table.empty

-- Another business has come with its own visits and completions.
def castleAndTower : PortalDb where
  businesses := castleAlone.businesses.insert
    { id := 20, slug := "tower", name := "Tower", ownerId := some 2, createdAt := 5 }
  visits := castleAlone.visits.insert { id := 2, businessId := 20, userId := some 5, createdAt := 55 }
  quests := castleAlone.quests.insert { id := 8, title := "Stairs", businessId := some 20 }
  completions := castleAlone.completions.insert
    { userId := 5, questId := 8, status := .COMPLETED, startedAt := 10, completedAt := some 70 }
  ratings := Table.empty

def plainTitles : OrderBy String := ⟨ℕ, inferInstance, String.length⟩

def newestFirst : QueryOrder ownerOrderBy := ⟨_, Paging.answers_insertionSort ownerOrderBy.key⟩

def topFirst : QueryOrder (topQuestsOrderBy plainTitles) :=
  ⟨_, Paging.answers_insertionSort (topQuestsOrderBy plainTitles).key⟩

theorem createdApart_castle : CreatedApart castleAlone 1 := by
  intro b hb b' hb' _ _ _
  rw [List.mem_singleton.mp hb, List.mem_singleton.mp hb']

theorem reports_agree_castle : ∃ metrics quests,
    getMetrics newestFirst castleAlone 100 1 (some .SEVEN_D) = .ok metrics ∧
      getTopQuests newestFirst topFirst castleAlone 100 1 (some .SEVEN_D) 10 = .ok quests ∧
        Agree plainTitles castleAlone castle .SEVEN_D 100 10 metrics quests :=
  reports_agree newestFirst newestFirst topFirst 100 (some .SEVEN_D) 10 createdApart_castle

theorem reports_isolated_castle :
    (getMetrics newestFirst castleAlone 100 1 (some .SEVEN_D) =
        getMetrics newestFirst castleAndTower 100 1 (some .SEVEN_D) ∧
      getTopQuests newestFirst topFirst castleAlone 100 1 (some .SEVEN_D) 10 =
        getTopQuests newestFirst topFirst castleAndTower 100 1 (some .SEVEN_D) 10) ∧
    (getMetrics newestFirst castleAndTower 100 1 (some .SEVEN_D)).toOption.map
      (fun m => (m.monthlyVisits.value, m.questCompletions.value)) = some (1, 1) := by
  have hrows : ∀ business ∈ findByOwnerId newestFirst castleAlone 1,
      SameRows business.id castleAlone castleAndTower := by
    intro business hbusiness
    cases hbusiness
    exact ⟨rfl, rfl, rfl, rfl⟩
  obtain ⟨hmetrics, _, htop⟩ := reports_isolated newestFirst newestFirst topFirst topFirst
    createdApart_castle (show _ = castleAndTower.businesses.rows.filter _ from rfl) hrows 100
      (some .SEVEN_D) 10
  refine ⟨⟨hmetrics, htop fun business hbusiness q hq q' hq' _ => ?_⟩, by decide +kernel⟩
  cases hbusiness
  rw [List.mem_singleton.mp hq, List.mem_singleton.mp hq']

end SideQuest
