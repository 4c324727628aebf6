import SideQuest.Model.PublicStats

-- Every count that is served was so at some moment not earlier than five minutes before the
-- request came in, whatever else runs and however the database changes. A featured quest is
-- chosen in steps and read after that: each of them is true of such a moment.

namespace SideQuest

namespace PublicStats

open ReadCommitted StatsRepository

-- The quest comes first among those that the query is about.
def Best (way : FeaturedBy) (id : Id) (db : Snapshot) : Prop :=
  ∃ q ∈ candidates way db, q.id = id ∧
    ∀ q' ∈ candidates way db, way.orderBy.key q ≤ way.orderBy.key q'

def NoneLike (way : FeaturedBy) (db : Snapshot) : Prop := candidates way db = []

-- How a quest gets featured, each step at its own moment.
def Featured (t : Timeline Snapshot) (since : Time) : Option Id → Prop
  | some id => t.Held since (Best .flagged id) ∨ (t.Held since (NoneLike .flagged) ∧
      (t.Held since (Best .rated id) ∨
        (t.Held since (NoneLike .rated) ∧ t.Held since (Best .newest id))))
  | none => t.Held since (NoneLike .newest)

structure TakenSince (host : Host) (texts : Texts) (sql : Sql) (t : Timeline Snapshot)
    (payload : PublicStatsDto) (since : Time) : Prop where
  counts : t.Held since fun db =>
    (payload.totalExplorers, payload.totalQuests, payload.totalQuestCompletions) =
      (db.users.count active, db.quests.count (fun q => q.status = .PUBLISHED),
        db.completions.count fun c => c.status = .COMPLETED) ∧
    payload.totalDistanceKm =
      metersToKm (db.users.sum fun u => if active u then u.distanceWalkedM else 0)
  cities : t.Held since fun db =>
    payload.cities = (loadCityExplorerCounts sql db).map (toCityDto texts)
  featured : ∃ id, Featured t since id ∧ match id, payload.featuredQuest with
    | none, none => True
    | some id, some dto => t.Held since fun db =>
        ∃ q ∈ db.quests.find? id, dto = QuestsService.toDto host q none none
    | _, _ => False

section Taken

variable {host : Host} {texts : Texts} {sql : Sql} {orders : Orders} {t t' : Timeline Snapshot}
  {since since' : Time} {id : Option Id} {payload : PublicStatsDto}

theorem Featured.extends (h : Featured t since id) (ht : t.Extends t') : Featured t' since id := by
  cases id with
  | none => exact Timeline.Held.extends h ht
  | some id =>
      rcases h with h | ⟨hf, h | ⟨hr, h⟩⟩
      · exact .inl (h.extends ht)
      · exact .inr ⟨hf.extends ht, .inl (h.extends ht)⟩
      · exact .inr ⟨hf.extends ht, .inr ⟨hr.extends ht, h.extends ht⟩⟩

theorem Featured.earlier (h : Featured t since id) (hle : since' ≤ since) :
    Featured t since' id := by
  cases id with
  | none => exact Timeline.Held.earlier h hle
  | some id =>
      rcases h with h | ⟨hf, h | ⟨hr, h⟩⟩
      · exact .inl (h.earlier hle)
      · exact .inr ⟨hf.earlier hle, .inl (h.earlier hle)⟩
      · exact .inr ⟨hf.earlier hle, .inr ⟨hr.earlier hle, h.earlier hle⟩⟩

theorem TakenSince.extends (h : TakenSince host texts sql t payload since) (ht : t.Extends t') :
    TakenSince host texts sql t' payload since where
  counts := h.counts.extends ht
  cities := h.cities.extends ht
  featured := by
    obtain ⟨id, hid, hdto⟩ := h.featured
    refine ⟨id, hid.extends ht, ?_⟩
    split at hdto
    · trivial
    · exact hdto.extends ht
    · exact hdto.elim

theorem TakenSince.earlier (h : TakenSince host texts sql t payload since) (hle : since' ≤ since) :
    TakenSince host texts sql t payload since' where
  counts := h.counts.earlier hle
  cities := h.cities.earlier hle
  featured := by
    obtain ⟨id, hid, hdto⟩ := h.featured
    refine ⟨id, hid.earlier hle, ?_⟩
    split at hdto
    · trivial
    · exact hdto.earlier hle
    · exact hdto.elim

theorem best_of_findFirst {way : FeaturedBy} {db : Snapshot} {id : Id}
    (h : findFirst orders way db = some id) : Best way id db := by
  obtain ⟨q, hq, rfl⟩ := Option.map_eq_some_iff.mp h
  obtain ⟨hmem, hleast⟩ := ((orders way).answers (candidates way db)).head?_le hq
  exact ⟨q, hmem, rfl, hleast⟩

theorem noneLike_of_findFirst {way : FeaturedBy} {db : Snapshot}
    (h : findFirst orders way db = none) : NoneLike way db := by
  have hnil : (orders way).order (candidates way db) = [] := by
    simpa [findFirst] using h
  have hperm := ((orders way).answers (candidates way db)).perm
  rw [hnil] at hperm
  exact hperm.symm.eq_nil

-- What a statement reads off the database.
def reading : {β : Type} → Stmt β → Option (Snapshot → β)
  | _, .platformCounts => some loadPlatformCounts
  | _, .cityExplorerCounts sql => some (loadCityExplorerCounts sql)
  | _, .questFindFirst orders way => some (findFirst orders way)
  | _, .questFindById id => some fun db => db.quests.find? id
  | _, _ => none

-- Its answer was so at some moment from `since` on.
def Answered (t : Timeline Snapshot) (since : Time) {β : Type} (st : Stmt β) (b : β) : Prop :=
  ∀ f ∈ reading st, t.Held since fun db => b = f db

theorem Answered.extends {β : Type} {st : Stmt β} {b : β} (h : Answered t since st b)
    (ht : t.Extends t') : Answered t' since st b := fun f hf => (h f hf).extends ht

theorem answered_of_exec {β : Type} {st : Stmt β} {b : β} {ws : List Write} {w : World}
    (hsince : since ≤ w.db.now.time) (he : Stmt.exec st w = .ok (b, ws)) :
    Answered w.db since st b := by
  intro f hf
  refine Timeline.held_now hsince ?_
  cases st <;> cases hf <;> cases he <;> rfl

theorem featured_of_yields {id : Option Id}
    (h : Prog.Yields (Answered t since) (featuredId orders) id) : Featured t since id := by
  obtain ⟨flagged, hflagged, h⟩ := h
  have hfirst (way : FeaturedBy) {found : Option Id}
      (hfound : t.Held since fun db => found = findFirst orders way db) :
      t.Held since fun db => match found with
        | some id => Best way id db
        | none => NoneLike way db := by
    refine hfound.imp fun db hdb => ?_
    cases found with
    | some id => exact best_of_findFirst hdb.symm
    | none => exact noneLike_of_findFirst hdb.symm
  have hflagged := hfirst .flagged (hflagged _ rfl)
  cases flagged with
  | some id' =>
      obtain rfl : some id' = id := h
      exact .inl hflagged
  | none =>
      obtain ⟨rated, hrated, h⟩ := h
      have hrated := hfirst .rated (hrated _ rfl)
      cases rated with
      | some id' =>
          obtain rfl : some id' = id := h
          exact .inr ⟨hflagged, .inl hrated⟩
      | none =>
          obtain ⟨newest, hnewest, h⟩ := h
          obtain rfl : newest = id := h
          have hnewest := hfirst .newest (hnewest _ rfl)
          cases newest with
          | some id' => exact .inr ⟨hflagged, .inr ⟨hrated, hnewest⟩⟩
          | none => exact hnewest

variable (texts) in
theorem taken_of_yields {i j : ℕ} {counts : PlatformCountsRow} {cityRows : List CityExplorerRow}
    {featuredQuest : Option QuestDto}
    (h : Prog.Yields (Answered t since) (loadAll host sql orders i j)
      (counts, cityRows, featuredQuest)) :
    TakenSince host texts sql t (toPayload texts counts cityRows featuredQuest) since := by
  obtain ⟨hcounts, hrest⟩ := Prog.yields_alongside.mp h
  obtain ⟨hcities, hfeatured⟩ := Prog.yields_alongside.mp hrest
  obtain ⟨id, hid, hdto⟩ := Prog.yields_bind.mp hfeatured
  refine ⟨(hcounts _ rfl).imp fun db hdb => ?_, (hcities _ rfl).imp fun db hdb => ?_, id,
    featured_of_yields hid, ?_⟩
  · rw [hdb]
    exact ⟨rfl, rfl⟩
  · rw [hdb]
    rfl
  · cases id with
    | none =>
        obtain rfl : none = featuredQuest := hdto
        trivial
    | some id =>
        obtain ⟨found, hfound, hdto⟩ := hdto
        cases found with
        | none => exact hdto.elim
        | some quest =>
            obtain rfl : some (QuestsService.toDto host quest none none) = featuredQuest := hdto
            exact (hfound _ rfl).imp fun db hdb => ⟨quest, hdb.symm, rfl⟩

end Taken

section Requests

variable (host : Host) (texts : Texts) (sql : Sql)

structure StatsInv (w : World) : Prop where
  cache : ∀ e ∈ w.cache, e.Fresh (TakenSince host texts sql w.db) CACHE_TTL_MS
  served : ∀ a ∈ w.served, TakenSince host texts sql w.db a.2 (a.1 - CACHE_TTL_MS)

abbrev statsContract : Contract Stmt World Write where
  inv s := StatsInv host texts sql s.db
  guar s s' := s.db.db.Extends s'.db.db
  guard := Guard.none
  guar_refl s := .refl s.db.db
  guar_trans := .trans

inductive StatsRequest : Request Unit → Prop
  | getPublic (orders : Orders) (i j : ℕ) : StatsRequest (getPublic host texts sql orders i j)

variable {host texts sql}

theorem StatsInv.extends {w : World} (h : StatsInv host texts sql w) {t : Timeline Snapshot}
    (ht : w.db.Extends t) : StatsInv host texts sql { w with db := t } where
  cache e he := (h.cache e he).extends ht
  served a ha := (h.served a ha).extends ht

variable {s : Store World Write} {me : ℕ}

theorem commits_setCache (h : StatsInv host texts sql s.db) {e : CacheEntry PublicStatsDto}
    (he : e.Fresh (TakenSince host texts sql s.db.db) CACHE_TTL_MS) :
    (statsContract host texts sql).rules.Commits me s [.setCache e] := by
  refine ⟨⟨fun e' he' => ?_, h.served⟩, .refl _⟩
  cases he'
  exact he

theorem commits_serve (h : StatsInv host texts sql s.db) {arrived : Time}
    {payload : PublicStatsDto}
    (ha : TakenSince host texts sql s.db.db payload (arrived - CACHE_TTL_MS)) :
    (statsContract host texts sql).rules.Commits me s [.serve arrived payload] := by
  refine ⟨⟨h.cache, fun a hmem => ?_⟩, .refl _⟩
  rcases List.mem_append.mp hmem with hold | hnew
  · exact h.served a hold
  · obtain rfl := List.mem_singleton.mp hnew
    exact ha

theorem readOnly_loadAll (orders : Orders) (i j : ℕ) :
    Rules.ReadOnly (loadAll host sql orders i j) := by
  have hread {β : Type} {st : Stmt β} (hst : (reading st).isSome) :
      ∀ db b ws, Backend.exec st db = .ok (b, ws) → ws = [] := by
    intro db b ws he
    cases st <;> cases hst <;> cases he <;> rfl
  have hid : Rules.ReadOnly (featuredId orders) := by
    refine ⟨hread rfl, fun flagged => ?_⟩
    cases flagged with
    | some id => trivial
    | none =>
        refine ⟨hread rfl, fun rated => ?_⟩
        cases rated with
        | some id => trivial
        | none => exact ⟨hread rfl, fun _ => trivial⟩
  have hfeatured : Rules.ReadOnly (resolveFeaturedQuestDto host orders) := by
    refine hid.bind fun id => ?_
    cases id with
    | none => trivial
    | some id =>
        refine ⟨hread rfl, fun found => ?_⟩
        cases found <;> trivial
  exact (hfeatured.alongside (hread rfl) j).alongside (hread rfl) i

-- A hit is in the cache for at most five minutes; otherwise everything is loaded anew.
theorem wp_getPublicStats {orders : Orders} {i j : ℕ} {arrived : Time}
    (harrived : arrived ≤ s.db.db.now.time) : (statsContract host texts sql).rules.wp me
      (fun payload s' => TakenSince host texts sql s'.db.db payload (arrived - CACHE_TTL_MS))
      (getPublicStats host texts sql orders i j) s := by
  unfold getPublicStats
  refine Rules.wp_query (fun _ => rfl) fun s₁ h₁ => ?_
  have hnow : arrived ≤ s₁.db.db.now.time := harrived.trans h₁.2.1.time
  dsimp only
  split
  · rename_i payload hhit
    have htaken : TakenSince host texts sql s₁.db.db payload (s₁.db.db.now.time - CACHE_TTL_MS) :=
      CacheEntry.since_of_lookup (fun _ _ _ hle h => h.earlier hle) h₁.1.cache hhit
    exact fun s₂ h₂ => (htaken.earlier (sub_le_sub_right hnow _)).extends h₂.2.1
  · let ok (s' : Store World Write) {β : Type} : Stmt β → β → Prop :=
      Answered s'.db.db s₁.db.db.now.time
    have hstable {s' s'' : Store World Write} {β : Type} {st : Stmt β} {b : β}
        (hr : (statsContract host texts sql).rules.rely me [] s' s'') (hb : ok s' st b) :
        ok s'' st b := hb.extends hr.2.1
    have hread {s' : Store World Write} {β : Type} {st : Stmt β} {b : β}
        (hr : (statsContract host texts sql).rules.rely me [] s₁ s')
        (he : Backend.exec st s'.db = .ok (b, [])) : ok s' st b := answered_of_exec hr.2.1.time he
    refine Rules.wp_yields ok hstable hread (readOnly_loadAll orders i j) fun s₂ loaded _ hyields => ?_
    have htaken := taken_of_yields texts hyields
    refine Rules.wp_call fun s₃ h₃ _ _ ws he => ?_
    cases he
    have hold := htaken.extends h₃.2.1
    refine ⟨commits_setCache h₃.1 ?_, fun s₄ h₄ => (hold.earlier ?_).extends h₄.2.1⟩
    · unfold CacheEntry.Fresh
      rw [add_sub_cancel_right]
      exact hold
    · exact (sub_le_sub_right hnow _).trans (sub_le_self _ (by decide))

theorem wp_getPublic {orders : Orders} {i j : ℕ} :
    (statsContract host texts sql).rules.wp me (fun _ _ => True)
      (getPublic host texts sql orders i j) s := by
  unfold getPublic
  refine Rules.wp_query (fun _ => rfl) fun s₁ _ => Rules.wp_bind ?_
  refine Rules.wp_mono (fun payload s₂ htaken => ?_) (wp_getPublicStats le_rfl)
  refine Rules.wp_call fun s₃ h₃ _ _ ws he => ?_
  cases he
  exact ⟨commits_serve h₃.1 (htaken.extends h₃.2.1), fun _ _ => trivial⟩

end Requests

theorem taken_of_reaches {host : Host} {texts : Texts} {sql : Sql} {db : Moment Snapshot}
    {s : System Stmt World Write ApiError}
    (h : System.Reaches (StatsRequest host texts sql) Guard.none
      (System.init ⟨⟨db, []⟩, none, []⟩) s) :
    ∀ a ∈ s.store.db.served, TakenSince host texts sql s.store.db.db a.2 (a.1 - CACHE_TTL_MS) := by
  have hinit : StatsInv host texts sql ⟨⟨db, []⟩, none, []⟩ :=
    ⟨fun e he => absurd he (Option.not_mem_none e), fun a ha => absurd ha List.not_mem_nil⟩
  have hsafe := System.Reaches.safe (C := statsContract host texts sql)
    (fun p hp me st _ => by
      cases hp
      exact wp_getPublic)
    (fun change st hst => ⟨hst.extends (Timeline.extends_change _ _ _),
      Timeline.extends_change _ _ _⟩) (System.init_safe hinit) h
  exact hsafe.1.inv.served

def sortedOrders : Orders := fun way =>
  ⟨fun rows => rows.insertionSort fun q q' => way.orderBy.key q ≤ way.orderBy.key q',
    Paging.answers_insertionSort way.orderBy.key⟩

def plainTexts : Texts := ⟨id, id, id, Char.isWhitespace⟩

def plainSql : Sql := ⟨id, id, fun _ _ => true⟩

def bridgeWalk (status : QuestStatus) : QuestWithEnrichment where
  id := 10
  slug := "bridge-walk"
  title := "Bridge walk"
  description := "Over the bridge and back."
  status := status
  createdAt := 0
  updatedAt := 0
  locations := []
  category := none

def snapshot (status : QuestStatus) : Snapshot where
  users := Table.empty.insert { id := 1, distanceWalkedM := 1500 }
  quests := Table.empty.insert (bridgeWalk status)
  completions := Table.empty

-- A quest is archived after it has been served. Who asks two hundred seconds later still
-- gets it, and who asks three hundred and one seconds later does not.
theorem taken_archived : ∃ s : System Stmt World Write ApiError,
    (∀ a ∈ s.store.db.served,
      TakenSince Host.plain plainTexts plainSql s.store.db.db a.2 (a.1 - CACHE_TTL_MS)) ∧
    s.store.db.served.map (fun a => (a.1, a.2.totalQuests, a.2.featuredQuest.isSome)) =
      [(0, 1, true), (200000, 1, true), (301000, 0, false)] := by
  let p : Request Unit := getPublic Host.plain plainTexts plainSql sortedOrders 1 0
  let turns (i n : ℕ) : List (Choice Stmt ApiError (ℕ × Snapshot)) := List.replicate n (.next i)
  let schedule : List (Choice Stmt ApiError (ℕ × Snapshot)) :=
    [.spawn p] ++ turns 0 10 ++ [.happen (200000, snapshot .ARCHIVED), .spawn p] ++ turns 1 3 ++
      [.happen (101000, snapshot .ARCHIVED), .spawn p] ++ turns 2 9
  have hplay : (System.play Guard.none (System.init ⟨⟨⟨0, snapshot .PUBLISHED⟩, []⟩, none, []⟩)
      schedule).map (fun s => s.store.db.served.map fun a =>
        (a.1, a.2.totalQuests, a.2.featuredQuest.isSome)) =
      some [(0, 1, true), (200000, 1, true), (301000, 0, false)] := by decide +kernel
  obtain ⟨s, hs, hobs⟩ := Option.map_eq_some_iff.mp hplay
  have hps : ∀ p', .spawn p' ∈ schedule → StatsRequest Host.plain plainTexts plainSql p' := by
    intro p' hp'
    have hsame : p' = p := by simpa [schedule, turns] using hp'
    exact hsame ▸ .getPublic sortedOrders 1 0
  exact ⟨s, taken_of_reaches (System.reaches_of_play hps hs), hobs⟩

end PublicStats

end SideQuest
