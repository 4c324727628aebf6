import SideQuest.Model.Authoring

-- The catalogue over every interleaving of the requests that write it: what is published
-- has its date, an edit keeps what it may not touch, and outsiders change nothing.

namespace SideQuest

namespace Authoring

open ReadCommitted QuestsService

inductive AuthoringRequest (host : Host) : Request Unit → Prop
  | create (actor : Actor) (dto : CreateQuestDto) : dto.valid = true →
      AuthoringRequest host (QuestsController.create host actor dto).void
  | update (actor : Actor) (questId : Id) (dto : UpdateQuestDto) : dto.valid = true →
      AuthoringRequest host (update host actor questId dto).void
  | delete (actor : Actor) (questId : Id) :
      AuthoringRequest host (delete actor questId)
  | getById (id : Id) (viewerUserId : Option Id) :
      AuthoringRequest host (getById host id viewerUserId).void
  | getBySlug (slug : String) (viewerUserId : Option Id) :
      AuthoringRequest host (getBySlug host slug viewerUserId).void

-- A quest that can be shown and played.
structure WellKept (now : Time) (q : CatalogQuest) : Prop where
  slug : lengthWithin 3 64 q.slug = true ∧ isSlug q.slug = true
  xpReward : 0 ≤ q.xpReward ∧ q.xpReward ≤ 10000
  waypoints : 1 ≤ q.locations.length ∧ q.locations.length ≤ 20
  waypoint : ∀ l ∈ q.locations, (5 ≤ l.radiusM ∧ l.radiusM ≤ 5000) ∧ 0 ≤ l.orderIndex
  created : q.createdAt ≤ now
  published : q.status = .PUBLISHED → q.publishedAt ≠ none
  publishedAt : ∀ t ∈ q.publishedAt, q.createdAt ≤ t ∧ t ≤ now

structure Curated (w : World) : Prop where
  ids : ∀ q ∈ w.quests.rows, q.id < w.nextId
  slugs : (w.quests.rows.map CatalogQuest.slug).Nodup
  quests : ∀ q ∈ w.quests.rows, WellKept w.clock q

-- The columns that no request changes once the quest is there.
def fixedColumns (q : CatalogQuest) :=
  (q.slug, q.authorId, q.businessId, q.createdAt, q.locations, q.tags, q.ratingAvg, q.ratingCount,
    q.featuredAt)

structure EditOf (q q' : CatalogQuest) : Prop where
  fixed : fixedColumns q' = fixedColumns q
  published : q.publishedAt ≠ none → q'.publishedAt ≠ none

-- Every old quest that is still there is an edit of what it was; what is gone stays gone.
def Edited (w w' : World) : Prop :=
  ∀ id < w.nextId, ∀ q' ∈ w'.quests.find? id, ∃ q ∈ w.quests.find? id, EditOf q q'

structure Later (w w' : World) : Prop where
  clock : w.clock ≤ w'.clock
  nextId : w.nextId ≤ w'.nextId
  edited : Edited w w'

theorem EditOf.refl (q : CatalogQuest) : EditOf q q := ⟨rfl, id⟩

theorem EditOf.trans {q q' q'' : CatalogQuest} (h : EditOf q q') (h' : EditOf q' q'') :
    EditOf q q'' := ⟨h'.fixed.trans h.fixed, h'.published ∘ h.published⟩

theorem Later.refl (w : World) : Later w w :=
  ⟨le_rfl, le_rfl, fun _ _ q hq => ⟨q, hq, .refl q⟩⟩

theorem Later.trans {w w' w'' : World} (h : Later w w') (h' : Later w' w'') : Later w w'' where
  clock := h.clock.trans h'.clock
  nextId := h.nextId.trans h'.nextId
  edited id hid q'' hq'' := by
    obtain ⟨q', hq', hedit'⟩ := h'.edited id (lt_of_lt_of_le hid h.nextId) q'' hq''
    obtain ⟨q, hq, hedit⟩ := h.edited id hid q' hq'
    exact ⟨q, hq, hedit.trans hedit'⟩

section Writes

variable {w : World}

theorem WellKept.later {now now' : Time} {q : CatalogQuest} (h : WellKept now q) (hle : now ≤ now') :
    WellKept now' q :=
  { h with
    created := h.created.trans hle
    publishedAt := fun t ht => ⟨(h.publishedAt t ht).1, (h.publishedAt t ht).2.trans hle⟩ }

theorem Curated.elapse (h : Curated w) (elapsed : ℕ) :
    Curated { w with clock := w.clock + elapsed } where
  ids := h.ids
  slugs := h.slugs
  quests q hq := (h.quests q hq).later (by simp)

theorem Curated.create (h : Curated w) {row : CatalogQuest} (hid : w.nextId = row.id)
    (hslug : w.findBySlug row.slug = none) (hrow : WellKept w.clock row) :
    Curated (w.apply (.questCreate row)) ∧ Later w (w.apply (.questCreate row)) := by
  have hfree : w.quests.find? row.id = none :=
    Table.find?_eq_none_iff.mpr fun q hq hsame => (h.ids q hq).ne (hsame.trans hid.symm)
  have hrows : (w.apply (.questCreate row)).quests.rows = w.quests.rows ++ [row] :=
    Table.rows_insert hfree
  have hnext : (w.apply (.questCreate row)).nextId = max w.nextId (row.id + 1 + row.locations.length) :=
    rfl
  refine ⟨⟨?_, ?_, ?_⟩, le_rfl, le_max_left _ _, fun id hlt q hq => ?_⟩
  · intro q hq
    rw [hrows, List.mem_append, List.mem_singleton] at hq
    rw [hnext]
    rcases hq with hq | rfl
    · exact lt_max_of_lt_left (h.ids q hq)
    · exact lt_max_of_lt_right (Nat.lt_add_right _ (Nat.lt_succ_self _))
  · rw [hrows, List.map_append, List.map_singleton]
    refine List.nodup_append'.mpr ⟨h.slugs, List.nodup_singleton _, ?_⟩
    rw [List.disjoint_singleton]
    intro hmem
    obtain ⟨q, hq, hsame⟩ := List.mem_map.mp hmem
    have hnone := List.find?_eq_none.mp hslug q hq
    exact hnone (by simpa using hsame)
  · intro q hq
    rw [hrows, List.mem_append, List.mem_singleton] at hq
    rcases hq with hq | rfl
    · exact h.quests q hq
    · exact hrow
  · have hne : row.id ≠ id := hid ▸ hlt.ne'
    have hsame : (w.apply (.questCreate row)).quests.find? id = w.quests.find? id :=
      Table.find?_insert_ne _ hne
    exact ⟨q, hsame ▸ hq, .refl q⟩

theorem mem_modify {id : Id} {data : QuestUpdate} {now : Time} {q : CatalogQuest}
    (hq : q ∈ (w.apply (.questUpdate id data now)).quests.rows) :
    (q ∈ w.quests.rows ∧ q.id ≠ id) ∨ ∃ q₀, w.quests.find? id = some q₀ ∧ q = data.apply now q₀ := by
  obtain ⟨q₀, hmem, rfl⟩ := List.mem_map.mp hq
  by_cases hid : q₀.id = id
  · refine Or.inr ⟨q₀, hid ▸ Table.find?_of_mem hmem, if_pos hid⟩
  · refine Or.inl ?_
    rw [if_neg hid]
    exact ⟨hmem, hid⟩

-- What may be written over a quest.
structure Fits (now : Time) (q : CatalogQuest) (data : QuestUpdate) : Prop where
  valid : data.dto.valid = true
  published : data.dto.status = some .PUBLISHED → q.publishedAt = none → data.publishedAt ≠ none
  publishedAt : ∀ t ∈ data.publishedAt, q.createdAt ≤ t ∧ t ≤ now

theorem xpReward_le_of_valid {dto : UpdateQuestDto} (h : dto.valid = true) :
    ∀ n ∈ dto.xpReward, n ≤ 10000 := by
  intro n hn
  simp only [UpdateQuestDto.valid, Bool.and_eq_true] at h
  have hwithin : within 0 10000 n = true := by
    have hxp := h.1.2
    rw [Option.mem_def.mp hn] at hxp
    exact hxp
  simp only [within, decide_eq_true_eq] at hwithin
  omega

theorem WellKept.update {now : Time} {q : CatalogQuest} (h : WellKept now q) {data : QuestUpdate}
    (hfits : Fits now q data) : WellKept now (data.apply now q) where
  slug := h.slug
  xpReward := by
    cases hxp : data.dto.xpReward with
    | none => simpa [QuestUpdate.apply, hxp] using h.xpReward
    | some n =>
        have hle := xpReward_le_of_valid hfits.valid n hxp
        simp only [QuestUpdate.apply, hxp, Option.map_some, Option.getD_some]
        omega
  waypoints := h.waypoints
  waypoint := h.waypoint
  created := h.created
  published := by
    intro hstatus
    have hdate : (data.apply now q).publishedAt = (data.publishedAt <|> q.publishedAt) := rfl
    rw [hdate]
    cases hd : data.publishedAt with
    | some t => simp
    | none =>
        intro hnone
        have hq : q.publishedAt = none := by simpa using hnone
        cases hst : data.dto.status with
        | none =>
            have hsame : (data.apply now q).status = q.status := by simp [QuestUpdate.apply, hst]
            exact h.published (hsame ▸ hstatus) hq
        | some status =>
            have hnew : (data.apply now q).status = status := by simp [QuestUpdate.apply, hst]
            exact hfits.published (hst.trans (congrArg some (hnew ▸ hstatus))) hq hd
  publishedAt t ht := by
    have hdate : t ∈ (data.publishedAt <|> q.publishedAt) := ht
    cases hd : data.publishedAt with
    | some t' =>
        rw [hd] at hdate
        exact hfits.publishedAt t (hd.trans hdate)
    | none =>
        rw [hd] at hdate
        exact h.publishedAt t (by simpa using hdate)

theorem EditOf.update {q : CatalogQuest} (data : QuestUpdate) (now : Time) :
    EditOf q (data.apply now q) := by
  refine ⟨rfl, fun hdate => ?_⟩
  show (data.publishedAt <|> q.publishedAt) ≠ none
  cases data.publishedAt with
  | none => simpa using hdate
  | some t => simp

theorem Curated.update (h : Curated w) {id : Id} {q : CatalogQuest} (hq : w.quests.find? id = some q)
    {data : QuestUpdate} (hfits : Fits w.clock q data) :
    Curated (w.apply (.questUpdate id data w.clock)) ∧
      Later w (w.apply (.questUpdate id data w.clock)) := by
  have hmem := Table.mem_of_find? hq
  refine ⟨⟨?_, ?_, ?_⟩, le_rfl, le_rfl, fun id' _ q' hq' => ?_⟩
  · intro q' hq'
    rcases mem_modify hq' with ⟨hold, _⟩ | ⟨q₀, hq₀, rfl⟩
    · exact h.ids q' hold
    · exact h.ids q₀ (Table.mem_of_find? hq₀)
  · have hsame : (w.apply (.questUpdate id data w.clock)).quests.rows.map CatalogQuest.slug =
        w.quests.rows.map CatalogQuest.slug := by
      simp only [World.apply, Table.rows_modify, List.map_map]
      refine List.map_congr_left fun q₀ _ => ?_
      dsimp only [Function.comp_apply]
      split <;> rfl
    rw [hsame]
    exact h.slugs
  · intro q' hq'
    rcases mem_modify hq' with ⟨hold, _⟩ | ⟨q₀, hq₀, rfl⟩
    · exact h.quests q' hold
    · obtain rfl : q = q₀ := Option.some.inj (hq.symm.trans hq₀)
      exact (h.quests q hmem).update hfits
  · by_cases hid : id' = id
    · subst hid
      have hnew : (w.apply (.questUpdate id' data w.clock)).quests.find? id' =
          (w.quests.find? id').map (data.apply w.clock) := Table.find?_modify_self _ _ _ (data.id_apply w.clock)
      rw [hnew, hq] at hq'
      cases hq'
      exact ⟨q, hq, .update data w.clock⟩
    · have hsame : (w.apply (.questUpdate id data w.clock)).quests.find? id' =
          w.quests.find? id' := Table.find?_modify_ne _ _ (data.id_apply w.clock) hid
      exact ⟨q', hsame ▸ hq', .refl q'⟩

theorem Curated.delete (h : Curated w) (id : Id) :
    Curated (w.apply (.questDelete id)) ∧ Later w (w.apply (.questDelete id)) := by
  have hsub : (w.apply (.questDelete id)).quests.rows.Sublist w.quests.rows := List.filter_sublist
  refine ⟨⟨fun q hq => h.ids q (hsub.subset hq), h.slugs.sublist (hsub.map _),
    fun q hq => h.quests q (hsub.subset hq)⟩, le_rfl, le_rfl, fun id' _ q hq => ⟨q, ?_, .refl q⟩⟩
  have herase : (w.apply (.questDelete id)).quests.find? id' =
      if id' = id then none else w.quests.find? id' := Table.find?_erase _ _ _
  rw [herase] at hq
  split at hq
  · cases hq
  · exact hq

end Writes

abbrev authoringContract : Contract Stmt World Write where
  inv s := Curated s.db
  guar s s' := Later s.db s'.db
  guard := Guard.none
  guar_refl s := Later.refl s.db
  guar_trans := Later.trans

section Requests

variable {host : Host} {me : ℕ} {s : Store World Write} {α : Type}

theorem commits_curated {ws : List Write}
    (h : Curated (view Stmt s.db ws) ∧ Later s.db (view Stmt s.db ws)) :
    authoringContract.rules.Commits me s ws := by
  refine ⟨?_, ?_⟩
  · show Curated (s.commit Stmt me ws).db
    rw [Store.commit_db]
    exact h.1
  · show Later s.db (s.commit Stmt me ws).db
    rw [Store.commit_db]
    exact h.2

section Rules

variable {R : Rules Stmt} {P : α → Store World Write → Prop}

theorem wp_allowed {actor : Actor} {authorId : Option Id} {f : Unit → Request α}
    (h : assertCanMutate actor authorId = .ok () → R.wp me P (f ()) s) :
    R.wp me P (allowed actor authorId >>= f) s := by
  unfold allowed
  split
  · rename_i hok
    exact h hok
  · trivial

theorem wp_publishedAtOf {status : Option QuestStatus} {publishedAt : Option Time}
    {f : Option Time → Request α}
    (hnew : status = some .PUBLISHED ∧ publishedAt = none → ∀ s', R.rely me [] s s' →
      R.wp me P (f (some s'.db.clock)) s')
    (hold : ¬(status = some .PUBLISHED ∧ publishedAt = none) → R.wp me P (f none) s) :
    R.wp me P (publishedAtOf status publishedAt >>= f) s := by
  unfold publishedAtOf
  split
  · rename_i hpublishes
    exact Rules.wp_query (fun _ => rfl) (hnew hpublishes)
  · rename_i hkeeps
    exact hold hkeeps

end Rules

theorem mem_row_locations {authorId : Id} {dto : CreateQuestDto} {id : Id} {now : Time} {l : Waypoint}
    (hl : l ∈ ((createData authorId dto).row id now).locations) :
    ∃ loc ∈ dto.locations, ∃ idx, l = waypointOf idx loc (id + 1 + idx) := by
  have hrow : ((createData authorId dto).row id now).locations =
      dto.locations.mapIdx fun idx loc => waypointOf idx loc (id + 1 + idx) := List.mapIdx_mapIdx
  rw [hrow] at hl
  obtain ⟨idx, hidx, rfl⟩ := List.mem_mapIdx.mp hl
  exact ⟨_, List.getElem_mem hidx, idx, rfl⟩

theorem row_wellKept {authorId : Id} {dto : CreateQuestDto} (hvalid : dto.valid = true) (id : Id)
    (now : Time) : WellKept now ((createData authorId dto).row id now) := by
  simp only [CreateQuestDto.valid, Bool.and_eq_true, List.all_eq_true] at hvalid
  obtain ⟨⟨⟨⟨⟨⟨⟨⟨⟨⟨hlength, hslug⟩, _⟩, _⟩, _⟩, hxp⟩, _⟩, _⟩, _⟩, hcount⟩, hall⟩ := hvalid
  have hlocations : ((createData authorId dto).row id now).locations.length =
      dto.locations.length := by
    simp [QuestCreate.row, createData]
  constructor
  · exact ⟨hlength, hslug⟩
  · show 0 ≤ dto.xpReward.getD 50 ∧ dto.xpReward.getD 50 ≤ 10000
    cases hreward : dto.xpReward with
    | none => simp
    | some n => simpa [hreward, within] using hxp
  · rw [hlocations]
    simp only [within, decide_eq_true_eq] at hcount
    omega
  · intro l hl
    obtain ⟨loc, hloc, idx, rfl⟩ := mem_row_locations hl
    have hvalid := hall loc hloc
    simp only [CreateQuestLocationDto.valid, Bool.and_eq_true] at hvalid
    obtain ⟨⟨_, hradius⟩, horder⟩ := hvalid
    constructor
    · show 5 ≤ loc.radiusM.getD 50 ∧ loc.radiusM.getD 50 ≤ 5000
      cases hr : loc.radiusM with
      | none => simp
      | some r => simpa [hr, within] using hradius
    · show 0 ≤ loc.orderIndex.getD idx
      cases ho : loc.orderIndex with
      | none => simp
      | some o => simpa [ho] using horder
  · exact le_rfl
  · intro hstatus
    cases hstatus
  · intro t ht
    cases ht

theorem wp_create {authorId : Id} {dto : CreateQuestDto} (hvalid : dto.valid = true) :
    authoringContract.rules.wp me (fun _ _ => True) (create host authorId dto) s := by
  unfold create
  refine Rules.wp_query (fun _ => rfl) fun s₁ _ => Rules.wp_require fun _ => ?_
  refine Rules.wp_call fun s₂ h₂ _ created ws he => ⟨?_, fun _ _ => trivial⟩
  simp only [Backend.exec, Stmt.exec] at he
  split_ifs at he with htaken hconnects
  cases he
  have hslug : s₂.db.findBySlug (createData authorId dto).slug = none := by simpa using htaken
  exact commits_curated (h₂.1.create rfl hslug (row_wellKept hvalid _ _))

theorem wp_update {actor : Actor} {questId : Id} {dto : UpdateQuestDto} (hvalid : dto.valid = true) :
    authoringContract.rules.wp me (fun _ _ => True) (update host actor questId dto) s := by
  unfold update
  refine Rules.wp_query (fun _ => rfl) fun s₁ h₁ => Rules.wp_expect fun quest hquest => ?_
  obtain ⟨q, hq, rfl⟩ := Option.map_eq_some_iff.mp hquest
  have hcreated := (h₁.1.quests q (Table.mem_of_find? hq)).created
  have hid : questId < s₁.db.nextId :=
    Table.key_of_find? hq ▸ h₁.1.ids q (Table.mem_of_find? hq)
  -- The row that is written is an edit of the one that was read.
  have hwrite (publishedAt : Option Time) (s₂ : Store World Write) (hcur : Curated s₂.db)
      (hlater : Later s₁.db s₂.db) (hdate : ∀ t ∈ publishedAt, q.createdAt ≤ t ∧ t ≤ s₂.db.clock)
      (hpublishes : dto.status = some .PUBLISHED → q.publishedAt = none → publishedAt ≠ none)
      {updated : QuestWithEnrichment} {ws : List Write}
      (he : Backend.exec (Stmt.questUpdate questId ⟨dto, publishedAt⟩) s₂.db = .ok (updated, ws)) :
      authoringContract.rules.Commits me s₂ ws := by
    simp only [Backend.exec, Stmt.exec] at he
    split at he
    · cases he
    · rename_i q' hq'
      split_ifs at he
      cases he
      obtain ⟨q₀, hq₀, hedit⟩ := hlater.edited questId hid q' hq'
      obtain rfl : q = q₀ := Option.some.inj (hq.symm.trans hq₀)
      have hsame : q'.createdAt = q.createdAt := congrArg (·.2.2.2.1) hedit.fixed
      refine commits_curated (hcur.update hq' ⟨hvalid, fun hst hnone => ?_, fun t ht => ?_⟩)
      · exact hpublishes hst (by_contra fun hne => hedit.published hne hnone)
      · rw [hsame]
        exact hdate t ht
  refine wp_allowed fun _ => wp_publishedAtOf (fun _ s₂ h₂ => ?_) fun hkeeps => ?_
  · refine Rules.wp_call fun s₃ h₃ _ updated ws he => ⟨?_, fun _ _ => trivial⟩
    refine hwrite _ s₃ h₃.1 (h₂.2.1.trans h₃.2.1) (fun t ht => ?_) (fun _ _ => by simp) he
    cases ht
    exact ⟨hcreated.trans h₂.2.1.clock, h₃.2.1.clock⟩
  · refine Rules.wp_call fun s₃ h₃ _ updated ws he => ⟨?_, fun _ _ => trivial⟩
    refine hwrite _ s₃ h₃.1 h₃.2.1 (fun t ht => by cases ht) (fun hst hnone => ?_) he
    exact absurd ⟨hst, hnone⟩ hkeeps

theorem wp_delete {actor : Actor} {questId : Id} :
    authoringContract.rules.wp me (fun _ _ => True) (delete actor questId) s := by
  unfold delete
  refine Rules.wp_query (fun _ => rfl) fun s₁ _ => Rules.wp_expect fun quest _ => ?_
  refine wp_allowed fun _ => Rules.wp_call fun s₂ h₂ _ deleted ws he => ⟨?_, fun _ _ => trivial⟩
  simp only [Backend.exec, Stmt.exec] at he
  split at he
  · cases he
  · cases he
    exact commits_curated (h₂.1.delete questId)

theorem readOnly_checkedFor (viewerUserId : Option Id) (questId : Id) :
    Rules.ReadOnly (checkedFor viewerUserId questId) := by
  cases viewerUserId with
  | none => trivial
  | some userId => exact ⟨fun _ _ _ he => by cases he; rfl, fun _ => trivial⟩

theorem wp_getById {R : Rules Stmt} {id : Id} {viewerUserId : Option Id} :
    R.wp me (fun _ _ => True) (getById host id viewerUserId) s := by
  unfold getById
  refine Rules.wp_query (fun _ => rfl) fun s₁ _ => Rules.wp_expect fun quest _ => ?_
  exact Rules.wp_readOnly (readOnly_checkedFor _ _) fun _ _ _ _ _ => trivial

theorem wp_getBySlug {R : Rules Stmt} {slug : String} {viewerUserId : Option Id} :
    R.wp me (fun _ _ => True) (getBySlug host slug viewerUserId) s := by
  unfold getBySlug
  refine Rules.wp_query (fun _ => rfl) fun s₁ _ => Rules.wp_expect fun quest _ => ?_
  exact Rules.wp_readOnly (readOnly_checkedFor _ _) fun _ _ _ _ _ => trivial

theorem AuthoringRequest.wp_curated {p : Request Unit} (hp : AuthoringRequest host p) :
    authoringContract.rules.wp me (fun _ _ => True) p s := by
  cases hp with
  | create actor dto hvalid =>
      apply Rules.wp_void
      exact Rules.wp_require fun _ => wp_create hvalid
  | update actor questId dto hvalid =>
      apply Rules.wp_void
      exact wp_update hvalid
  | delete actor questId => exact wp_delete
  | getById id viewerUserId =>
      apply Rules.wp_void
      exact wp_getById
  | getBySlug slug viewerUserId =>
      apply Rules.wp_void
      exact wp_getBySlug

end Requests

-- From any state of a run to any later one.
theorem curated_of_reaches {host : Host} {w : World} (hw : Curated w)
    {s s' : System Stmt World Write ApiError}
    (h : System.Reaches (AuthoringRequest host) Guard.none (System.init w) s)
    (h' : System.Reaches (AuthoringRequest host) Guard.none s s') :
    Curated s'.store.db ∧ Edited s.store.db s'.store.db := by
  have hsafe {s₁ s₂ : System Stmt World Write ApiError}
      (hs : System.Reaches (AuthoringRequest host) Guard.none s₁ s₂) (hs₁ : s₁.Safe authoringContract) :=
    System.Reaches.safe (C := authoringContract) (fun p hp me st _ => hp.wp_curated)
      (fun elapsed st hst => ⟨hst.elapse elapsed,
        ⟨by simp [Backend.happen], le_rfl, fun _ _ q hq => ⟨q, hq, .refl q⟩⟩⟩) hs₁ hs
  have hfirst := hsafe h (System.init_safe hw)
  have hlater := hsafe h' hfirst.1
  exact ⟨hlater.1.inv, hlater.2.edited⟩

-- A walk over the bridge, which user 1 has written and not published yet.
def bridgeWalk : CatalogQuest where
  id := 10
  slug := "bridge-walk"
  title := "Bridge walk"
  description := "Over the bridge and back."
  authorId := some 1
  createdAt := 0
  updatedAt := 0
  locations := [{ id := 11, latitude := 50, longitude := 14 }]

def drafts : World where
  clock := 5
  nextId := 12
  userIds := [1, 2, 3]
  businessIds := []
  categories := Table.empty
  quests := Table.empty.insert bridgeWalk
  enrichment _ := {}
  checkIns := []

theorem curated_drafts : Curated drafts where
  ids q hq := by
    obtain rfl : q = bridgeWalk := List.mem_singleton.mp hq
    decide
  slugs := List.nodup_singleton _
  quests q hq := by
    obtain rfl : q = bridgeWalk := List.mem_singleton.mp hq
    refine ⟨by decide +kernel, by decide, by decide, by decide, by decide, by decide, ?_⟩
    intro t ht
    cases ht

def towerWalk : CreateQuestDto where
  slug := "tower-walk"
  title := "Tower walk"
  description := "Up the tower and down."
  locations := [{ latitude := 50, longitude := 14 }]

def statuses (s : System Stmt World Write ApiError) :
    List (Id × String × QuestStatus × Option Time) :=
  s.store.db.quests.rows.map fun q => (q.id, q.slug, q.status, q.publishedAt)

-- The author and a moderator publish the quest at once, and two others create one of the
-- same slug: the second of them fails. Later the author takes the quest back, which keeps
-- its date.
theorem curated_two_publishers : ∃ s s' : System Stmt World Write ApiError,
    (Curated s'.store.db ∧ Edited s.store.db s'.store.db) ∧
      statuses s ++ statuses s' =
        [(10, "bridge-walk", .PUBLISHED, some 5), (12, "tower-walk", .DRAFT, none)] ++
          [(10, "bridge-walk", .DRAFT, some 5), (12, "tower-walk", .DRAFT, none)] := by
  let publish : UpdateQuestDto := { status := some .PUBLISHED }
  let ps := [(update Host.plain ⟨1, .BUSINESS_OWNER⟩ 10 publish).void,
    (update Host.plain ⟨2, .MODERATOR⟩ 10 publish).void,
    (QuestsController.create Host.plain ⟨2, .MODERATOR⟩ towerWalk).void,
    (QuestsController.create Host.plain ⟨3, .ADMIN⟩ towerWalk).void]
  let takeBack : Request Unit :=
    (update Host.plain ⟨1, .BUSINESS_OWNER⟩ 10 { status := some .DRAFT }).void
  have hps : ∀ p ∈ takeBack :: ps, AuthoringRequest Host.plain p := by
    simp only [ps, List.forall_mem_cons]
    exact ⟨.update _ _ _ (by decide), .update _ _ _ (by decide), .update _ _ _ (by decide),
      .create _ _ (by decide +kernel), .create _ _ (by decide +kernel), by simp⟩
  have hspawned : ∀ p, .spawn p ∈ System.interleave ps [0, 1, 2, 3, 0, 1, 0, 1, 3, 2] ++
      ([.happen 3, .spawn takeBack, .next 4, .next 4] : List (Choice Stmt ApiError ℕ)) →
        p ∈ takeBack :: ps := by
    intro p hp
    simp only [List.mem_append, System.spawn_mem_interleave, List.mem_cons, List.not_mem_nil,
      or_false, reduceCtorEq, Choice.spawn.injEq, false_or] at hp
    exact List.mem_cons.mpr hp.symm
  obtain ⟨s, s', hs, hs', hobs⟩ := System.exists_reaches_of_play_play (AuthoringRequest Host.plain)
    Guard.none (System.init drafts) (System.interleave ps [0, 1, 2, 3, 0, 1, 0, 1, 3, 2])
    [.happen 3, .spawn takeBack, .next 4, .next 4] (fun s s' => statuses s ++ statuses s')
    ([(10, "bridge-walk", .PUBLISHED, some 5), (12, "tower-walk", .DRAFT, none)] ++
      [(10, "bridge-walk", .DRAFT, some 5), (12, "tower-walk", .DRAFT, none)])
    (fun p hp => hps p (hspawned p hp)) (by decide +kernel)
  exact ⟨s, s', curated_of_reaches curated_drafts hs hs', hobs⟩

section Outsiders

-- Neither staff nor the author.
def Outsider (q : CatalogQuest) (actor : Actor) : Prop :=
  (actor.role ≠ .ADMIN ∧ actor.role ≠ .MODERATOR) ∧ q.authorId ≠ some actor.id

-- Requests of those who may not change the quest; other quests may be theirs.
inductive OutsiderRequest (host : Host) (q : CatalogQuest) : Request Unit → Prop
  | create (actor : Actor) (dto : CreateQuestDto) :
      OutsiderRequest host q (QuestsController.create host actor dto).void
  | update (actor : Actor) (questId : Id) (dto : UpdateQuestDto) : Outsider q actor →
      OutsiderRequest host q (update host actor questId dto).void
  | delete (actor : Actor) (questId : Id) : Outsider q actor →
      OutsiderRequest host q (delete actor questId)
  | getById (id : Id) (viewerUserId : Option Id) :
      OutsiderRequest host q (getById host id viewerUserId).void
  | getBySlug (slug : String) (viewerUserId : Option Id) :
      OutsiderRequest host q (getBySlug host slug viewerUserId).void

structure Holds (q : CatalogQuest) (w : World) : Prop where
  there : w.quests.find? q.id = some q
  known : q.id < w.nextId

variable {host : Host} {q : CatalogQuest} {me : ℕ} {s : Store World Write}

abbrev outsiderContract (q : CatalogQuest) : Contract Stmt World Write :=
  .ofInv (fun s => Holds q s.db) Guard.none

theorem commits_holds {wr : Write} (h : Holds q s.db) (hne : Lock.quest q.id ∉ wr.locks)
    (hnext : s.db.nextId ≤ (s.db.apply wr).nextId) :
    (outsiderContract q).rules.Commits me s [wr] :=
  ⟨⟨(Lock.same_apply s.db hne).trans h.there, h.known.trans_le hnext⟩, trivial⟩

-- Whoever gets past the check is at another quest.
theorem ne_of_allowed {actor : Actor} (hout : Outsider q actor) {w : World} (hw : Holds q w)
    {questId : Id} {quest : QuestWithEnrichment}
    (hfound : (w.quests.find? questId).map w.enriched = some quest)
    (hok : assertCanMutate actor quest.authorId = .ok ()) : q.id ≠ questId := by
  rintro rfl
  rw [hw.there] at hfound
  cases hfound
  unfold assertCanMutate at hok
  have hauthor : (w.enriched q).authorId ≠ some actor.id := hout.2
  rw [if_neg (not_or.mpr hout.1), if_neg hauthor] at hok
  cases hok

theorem lock_notMem {id : Id} (h : q.id ≠ id) : Lock.quest q.id ∉ [Lock.quest id] := by
  simpa using h

theorem OutsiderRequest.wp_holds {p : Request Unit} (hp : OutsiderRequest host q p) :
    (outsiderContract q).rules.wp me (fun _ _ => True) p s := by
  cases hp with
  | create actor dto =>
      apply Rules.wp_void
      refine Rules.wp_require fun _ => ?_
      refine Rules.wp_query (fun _ => rfl) fun s₁ _ => Rules.wp_require fun _ => ?_
      refine Rules.wp_call fun s₂ h₂ _ created ws he => ⟨?_, fun _ _ => trivial⟩
      simp only [Backend.exec, Stmt.exec] at he
      split_ifs at he
      cases he
      exact commits_holds h₂.1 (lock_notMem h₂.1.known.ne) (le_max_left _ _)
  | update actor questId dto hout =>
      apply Rules.wp_void
      refine Rules.wp_query (fun _ => rfl) fun s₁ h₁ => Rules.wp_expect fun quest hquest => ?_
      refine wp_allowed fun hok => ?_
      have hne := ne_of_allowed hout h₁.1 hquest hok
      have hwrite (publishedAt : Option Time) (s' : Store World Write) :
          (outsiderContract q).rules.wp me (fun _ _ => True)
            (prisma (.questUpdate questId ⟨dto, publishedAt⟩) >>= fun updated =>
              return toDto host updated none none) s' := by
        refine Rules.wp_call fun s₂ h₂ _ updated ws he => ⟨?_, fun _ _ => trivial⟩
        simp only [Backend.exec, Stmt.exec] at he
        split at he
        · cases he
        · split_ifs at he
          cases he
          exact commits_holds h₂.1 (lock_notMem hne) le_rfl
      exact wp_publishedAtOf (fun _ s₂ _ => hwrite _ s₂) fun _ => hwrite none s₁
  | delete actor questId hout =>
      refine Rules.wp_query (fun _ => rfl) fun s₁ h₁ => Rules.wp_expect fun quest hquest => ?_
      refine wp_allowed fun hok => Rules.wp_call fun s₂ h₂ _ deleted ws he => ⟨?_, fun _ _ => trivial⟩
      have hne := ne_of_allowed hout h₁.1 hquest hok
      simp only [Backend.exec, Stmt.exec] at he
      split at he
      · cases he
      · cases he
        exact commits_holds h₂.1 (lock_notMem hne) le_rfl
  | getById id viewerUserId =>
      apply Rules.wp_void
      exact wp_getById
  | getBySlug slug viewerUserId =>
      apply Rules.wp_void
      exact wp_getBySlug

end Outsiders

-- Whatever outsiders ask for, and in whatever order, the quest stays as it is.
theorem untouched_of_reaches {host : Host} {q : CatalogQuest} {w : World}
    (hq : w.quests.find? q.id = some q) (hid : q.id < w.nextId)
    {s : System Stmt World Write ApiError}
    (h : System.Reaches (OutsiderRequest host q) Guard.none (System.init w) s) :
    s.store.db.quests.find? q.id = some q := by
  have hsafe := System.Reaches.safe (C := outsiderContract q) (fun p hp me st _ => hp.wp_holds)
    (fun _ _ hst => ⟨⟨hst.there, hst.known⟩, trivial⟩) (System.init_safe ⟨hq, hid⟩) h
  exact hsafe.1.inv.there

-- A business owner who is not the author tries to archive the quest and to delete it.
theorem untouched_rival : ∃ s : System Stmt World Write ApiError,
    s.store.db.quests.find? 10 = some bridgeWalk ∧
      s.threads.map Thread.answered = [false, false, true] := by
  let rival : Actor := ⟨3, .BUSINESS_OWNER⟩
  let ps := [(update Host.plain rival 10 { status := some .ARCHIVED }).void, delete rival 10,
    (QuestsController.create Host.plain rival towerWalk).void]
  have hrival : Outsider bridgeWalk rival := ⟨by decide, by decide⟩
  have hps : ∀ p ∈ ps, OutsiderRequest Host.plain bridgeWalk p := by
    simp only [ps, List.forall_mem_cons]
    exact ⟨.update _ _ _ hrival, .delete _ _ hrival, .create _ _, by simp⟩
  obtain ⟨s, hs, hobs⟩ := System.exists_reaches_of_interleave (OutsiderRequest Host.plain bridgeWalk)
    Guard.none (System.init drafts) ps [0, 1, 2, 2] (fun s => s.threads.map Thread.answered)
    [false, false, true] hps (by decide +kernel)
  exact ⟨s, untouched_of_reaches (q := bridgeWalk) rfl (by decide) hs, hobs⟩

end Authoring

end SideQuest
