import SideQuest.Quests.Requests

-- The check-ins of a user at a quest, kept three times: as rows, in the array of the
-- completion and in a counter of the user.

namespace SideQuest

open ReadCommitted

-- The locations of the check-in rows, in the order they were committed.
def World.visitsAt (w : World) (userId questId : Id) : List Id :=
  (w.checkIns.rows.filter fun c => c.userId = userId ∧ c.questId = questId).map
    QuestLocationCheckIn.locationId

def World.visitArray (w : World) (userId questId : Id) : Option (List Id) :=
  (w.completions.find? (userId, questId)).map QuestCompletion.checkedInLocationIds

def World.visitCount (w : World) (userId : Id) : ℕ :=
  w.checkIns.count fun c => c.userId = userId

-- The array of the completion row is what it was at first and then the check-in rows.
structure VisitsAt (first : List Id) (userId questId : Id) (w : World) : Prop where
  array : ∀ ids, w.visitArray userId questId = some ids → ids = first ++ w.visitsAt userId questId
  started : w.visitArray userId questId = none → w.visitsAt userId questId = []
  located : ∀ id ∈ w.visitsAt userId questId,
    ∃ l, w.questLocations.find? id = some l ∧ l.questId = questId

theorem VisitsAt.congr {first : List Id} {userId questId : Id} {w w' : World}
    (h : VisitsAt first userId questId w)
    (harray : w'.visitArray userId questId = w.visitArray userId questId)
    (hvisits : w'.visitsAt userId questId = w.visitsAt userId questId)
    (hlocations : w'.questLocations = w.questLocations) : VisitsAt first userId questId w' where
  array ids hids := hvisits ▸ h.array ids (harray ▸ hids)
  started hnone := hvisits ▸ h.started (harray ▸ hnone)
  located id hid := hlocations ▸ h.located id (hvisits ▸ hid)

theorem view_questLocations (db : World) (ws : List Write) :
    (view Stmt db ws).questLocations = db.questLocations := by
  induction ws generalizing db with
  | nil => rfl
  | cons wr ws ih => rw [view_cons, ih]; cases wr <;> rfl

-- An update that pushes nothing.
theorem visitArray_completionUpdate {d : QuestCompletionUpdate} (hd : d.checkedInLocationIds = none)
    (w : World) (u q userId questId : Id) :
    (w.apply (.completionUpdate u q d)).visitArray userId questId = w.visitArray userId questId := by
  simp only [World.visitArray, World.apply, Table.find?_modify]
  split
  · rw [Option.map_map]
    congr 1
    funext row
    simp [QuestCompletionUpdate.apply, hd]
  · rfl

section

variable {first : List Id} {userId questId : Id} {w : World}

theorem VisitsAt.completionUpdate (h : VisitsAt first userId questId w) {d : QuestCompletionUpdate}
    (hd : d.checkedInLocationIds = none) (u q : Id) :
    VisitsAt first userId questId (w.apply (.completionUpdate u q d)) :=
  h.congr (visitArray_completionUpdate hd w u q userId questId) rfl rfl

-- A new row starts with an empty array.
theorem VisitsAt.completionCreate (h : VisitsAt first userId questId w) {row : QuestCompletion}
    (hfree : w.completions.find? row.key = none) (hrow : row.checkedInLocationIds = [])
    (hfirst : row.key = (userId, questId) → first = []) :
    VisitsAt first userId questId (w.apply (.completionCreate row)) := by
  by_cases hkey : row.key = (userId, questId)
  · have hnone : w.visitArray userId questId = none := by
      rw [World.visitArray, ← hkey, hfree, Option.map_none]
    have harray : (w.apply (.completionCreate row)).visitArray userId questId = some [] := by
      simp [World.visitArray, World.apply, Table.find?_insert hfree, hkey, hrow]
    refine ⟨fun ids hids => ?_, fun hn => ?_, h.located⟩
    · rw [harray] at hids
      rw [← Option.some.inj hids, hfirst hkey]
      exact (h.started hnone).symm
    · rw [harray] at hn
      cases hn
  · refine h.congr ?_ rfl rfl
    rw [World.visitArray, World.visitArray]
    exact congrArg _ (Table.find?_insert_ne _ hkey)

theorem visitsAt_checkInCreate {row : QuestLocationCheckIn}
    (hfree : w.checkIns.find? row.key = none) :
    (w.apply (.checkInCreate row)).visitsAt userId questId = w.visitsAt userId questId ++
      if row.userId = userId ∧ row.questId = questId then [row.locationId] else [] := by
  simp only [World.visitsAt, World.apply, Table.rows_insert hfree, List.filter_append,
    List.filter_singleton, List.map_append]
  by_cases hkey : row.userId = userId ∧ row.questId = questId <;> simp [hkey]

-- A check-in adds its location to the rows and to the array.
theorem VisitsAt.checkIn (h : VisitsAt first userId questId w) {row : QuestLocationCheckIn}
    (hfree : w.checkIns.find? row.key = none) {l : QuestLocation}
    (hlocation : w.questLocations.find? row.locationId = some l) (hof : l.questId = row.questId)
    (hstarted : (w.completions.find? (row.userId, row.questId)).isSome) :
    VisitsAt first userId questId ((w.apply (.checkInCreate row)).apply
      (.completionUpdate row.userId row.questId { checkedInLocationIds := some row.locationId })) := by
  set w' := (w.apply (.checkInCreate row)).apply
    (.completionUpdate row.userId row.questId { checkedInLocationIds := some row.locationId })
  have hvisits : w'.visitsAt userId questId = _ := visitsAt_checkInCreate hfree
  by_cases hkey : row.userId = userId ∧ row.questId = questId
  · obtain ⟨rfl, rfl⟩ := hkey
    obtain ⟨completion, hfound⟩ := Option.isSome_iff_exists.mp hstarted
    have hbefore : w.visitArray row.userId row.questId = some completion.checkedInLocationIds := by
      rw [World.visitArray, hfound, Option.map_some]
    have harray : w'.visitArray row.userId row.questId =
        some (completion.checkedInLocationIds ++ [row.locationId]) := by
      simp [w', World.visitArray, World.apply, hfound, QuestCompletionUpdate.apply]
    rw [if_pos ⟨rfl, rfl⟩] at hvisits
    refine ⟨fun ids hids => ?_, fun hn => ?_, fun id hid => ?_⟩
    · rw [harray] at hids
      rw [← Option.some.inj hids, h.array _ hbefore, hvisits, List.append_assoc]
    · rw [harray] at hn
      cases hn
    · rw [hvisits, List.mem_append, List.mem_singleton] at hid
      rcases hid with hid | rfl
      · exact h.located id hid
      · exact ⟨l, hlocation, hof⟩
  · rw [if_neg hkey, List.append_nil] at hvisits
    refine h.congr ?_ hvisits rfl
    rw [World.visitArray, World.visitArray]
    refine congrArg _ (Table.find?_modify_ne _ _ (QuestCompletionUpdate.key_apply _)
      fun he => hkey ?_)
    exact ⟨(Prod.mk.inj he).1.symm, (Prod.mk.inj he).2.symm⟩

end

-- The claimed relation between the three copies, for all users and quests.
structure WaypointInv (w : World) : Prop where
  visits : ∀ userId questId, VisitsAt [] userId questId w
  counted : ∀ id user, w.users.find? id = some user → user.placesVisited = w.visitCount id

namespace WaypointInv

variable {w : World} (h : WaypointInv w)

include h

theorem completionUpdate {d : QuestCompletionUpdate} (hd : d.checkedInLocationIds = none)
    (u q : Id) : WaypointInv (w.apply (.completionUpdate u q d)) :=
  ⟨fun userId questId => (h.visits userId questId).completionUpdate hd u q, h.counted⟩

theorem completionCreate {row : QuestCompletion} (hfree : w.completions.find? row.key = none)
    (hrow : row.checkedInLocationIds = []) : WaypointInv (w.apply (.completionCreate row)) :=
  ⟨fun userId questId => (h.visits userId questId).completionCreate hfree hrow fun _ => rfl,
    h.counted⟩

theorem userUpdate {d : UserUpdate} (hd : d.placesVisited = .keep) (u : Id) :
    WaypointInv (w.apply (.userUpdate u d)) := by
  refine ⟨fun userId questId => (h.visits userId questId).congr rfl rfl rfl,
    fun id user hfound => ?_⟩
  simp only [World.apply, Table.find?_modify] at hfound
  split at hfound
  · obtain ⟨before, hbefore, rfl⟩ := Option.map_eq_some_iff.mp hfound
    simp only [UserUpdate.apply, hd, FieldUpdate.apply]
    exact h.counted id before hbefore
  · exact h.counted id user hfound

theorem finalizing {R : Rules Stmt} {me : ℕ} {host : Host} {userId questId : Id}
    {quest : QuestWithLocations} {proof : Option CompletionProof} {seen : List (Seen Stmt)}
    {ws : List Write} {s s' : Store World Write}
    (t : QuestsService.Finalizing R me host userId questId quest proof seen ws s s') :
    WaypointInv (view Stmt w t.writes) :=
  (h.completionUpdate rfl userId questId).userUpdate rfl userId

theorem checkIn {row : QuestLocationCheckIn} (hfree : w.checkIns.find? row.key = none)
    {l : QuestLocation} (hlocation : w.questLocations.find? row.locationId = some l)
    (hof : l.questId = row.questId)
    (hstarted : (w.completions.find? (row.userId, row.questId)).isSome) :
    WaypointInv (view Stmt w [.checkInCreate row,
      .completionUpdate row.userId row.questId { checkedInLocationIds := some row.locationId },
      .userUpdate row.userId { placesVisited := .increment 1 }]) := by
  constructor
  · exact fun userId questId =>
      ((h.visits userId questId).checkIn hfree hlocation hof hstarted).congr rfl rfl rfl
  · intro id user hfound
    have hcount : (w.checkIns.insert row).count (fun c => c.userId = id) =
        w.visitCount id + if row.userId = id then 1 else 0 := by
      rw [Table.count_insert hfree]
      simp only [decide_eq_true_eq, World.visitCount]
    simp only [view_cons, view_nil, apply_eq, World.apply, Table.find?_modify] at hfound
    simp only [view_cons, view_nil, apply_eq, World.apply, World.visitCount]
    rw [hcount]
    split at hfound
    · rename_i hid
      obtain ⟨before, hbefore, rfl⟩ := Option.map_eq_some_iff.mp hfound
      rw [if_pos hid.symm, ← h.counted id before hbefore]
      rfl
    · rename_i hid
      rw [if_neg fun he => hid he.symm, Nat.add_zero]
      exact h.counted id user hfound

end WaypointInv

namespace QuestsService

section CheckIn

variable {R : Rules Stmt} {me : ℕ} {u q locationId : Id} {body : QuestCheckInBody}
  {s s₁ : Store World Write} (t : CheckingIn R me u q locationId body s s₁) {db : World}
  (hfree : db.checkIns.find? t.row.key = none)

include hfree

theorem CheckingIn.visitsAt_view (userId questId : Id) :
    (view Stmt db t.writes).visitsAt userId questId =
      db.visitsAt userId questId ++ if u = userId ∧ q = questId then [locationId] else [] :=
  visitsAt_checkInCreate hfree

theorem CheckingIn.visits_view {first : List Id} {userId questId : Id}
    (h : VisitsAt first userId questId db) {l : QuestLocation}
    (hlocation : db.questLocations.find? locationId = some l) (hof : l.questId = q)
    (hstarted : (db.completions.find? (u, q)).isSome) :
    VisitsAt first userId questId (view Stmt db t.writes) :=
  (h.checkIn hfree hlocation hof hstarted).congr rfl rfl rfl

end CheckIn

-- What the transaction counts is the check-ins committed so far and its own.
theorem CheckingIn.counted_eq {R : Rules Stmt} {me : ℕ} {u q locationId : Id}
    {body : QuestCheckInBody} {s s₁ : Store World Write}
    (t : CheckingIn R me u q locationId body s s₁) :
    t.counted = (s₁.db.visitsAt u q).length + 1 := by
  have hvisits := t.visitsAt_view (t.still_unvisited fun l _ => Lock.same_refl l _) u q
  rw [if_pos ⟨rfl, rfl⟩] at hvisits
  have hlength := congrArg List.length hvisits
  rw [List.length_append, List.length_singleton, World.visitsAt, List.length_map] at hlength
  rw [counted, Table.count, List.countP_eq_length_filter, hlength]

-- The locations of the quests stay what they are.
structure WaypointStore (locations : Table QuestLocation.id) (s : Store World Write) : Prop where
  inv : WaypointInv s.db
  locations_eq : s.db.questLocations = locations

abbrev waypointContract (locations : Table QuestLocation.id) : Contract Stmt World Write :=
  .ofInv (WaypointStore locations) Guard.none

theorem WaypointStore.commit {locations : Table QuestLocation.id} {s : Store World Write}
    (h : WaypointStore locations s) {me : ℕ} {ws : List Write}
    (hinv : WaypointInv (view Stmt s.db ws)) :
    (waypointContract locations).rules.Commits me s ws := by
  refine ⟨⟨?_, ?_⟩, trivial⟩
  · rwa [Store.commit_db]
  · rw [Store.commit_db, view_questLocations]
    exact h.locations_eq

theorem WaypointStore.checkIn {locations : Table QuestLocation.id}
    {me : ℕ} {userId questId locationId : Id} {body : QuestCheckInBody}
    {s s₁ s' : Store World Write} (h : WaypointStore locations s')
    (t : CheckingIn (waypointContract locations).rules me userId questId locationId body s s₁)
    (hlocated : Located (waypointContract locations).rules questId locationId)
    (hsame : ∀ l ∈ locksOf Stmt t.writes, Lock.same l s₁.db s'.db) :
    WaypointInv (view Stmt s'.db t.writes) := by
  obtain ⟨l, hlocation, hof⟩ := hlocated.found (fun _ h => WaypointStore.locations_eq h) h
  exact h.inv.checkIn (t.still_unvisited hsame) hlocation hof (t.still_started hsame)

theorem questCommits_waypoints (locations : Table QuestLocation.id) (me : ℕ) (host : Host)
    (userId questId : Id) :
    QuestCommits (waypointContract locations).rules me host userId questId where
  emits s e h := h.commit ⟨fun u q => (h.inv.visits u q).congr rfl rfl rfl, h.inv.counted⟩
  again s row now h _ := h.commit (h.inv.completionUpdate rfl userId questId)
  new s h hnone _ := h.commit (h.inv.completionCreate hnone rfl)
  finalize loaded proof s s' t _ := by
    have h : WaypointStore locations s' := Rules.rely_inv _ t.to_commit
    exact h.commit (h.inv.finalizing t)
  step loaded locationId body s s₁ s' t _ hlocated _ hr := by
    have h : WaypointStore locations s' := Rules.rely_inv _ hr
    exact h.commit (h.checkIn t hlocated (Rules.rely_same _ hr))
  last loaded locationId body seen s s₁ s' t fin _ hlocated _ := by
    have h : WaypointStore locations s' := Rules.rely_inv _ fin.to_commit
    apply h.commit
    rw [view_append]
    exact (h.checkIn t hlocated fun _ => fin.same).finalizing fin

end QuestsService

-- No array has a duplicate, the arrays are the check-in rows, all at the quest's own
-- locations, and the counters count them.
structure WaypointsAgree (w : World) : Prop where
  nodup : ∀ row ∈ w.completions.rows, row.checkedInLocationIds.Nodup
  exact : ∀ row ∈ w.completions.rows, ∀ id, id ∈ row.checkedInLocationIds ↔
    ∃ c ∈ w.checkIns.rows, c.userId = row.userId ∧ c.questId = row.questId ∧ c.locationId = id
  located : ∀ row ∈ w.completions.rows, ∀ id ∈ row.checkedInLocationIds,
    ∃ l ∈ w.questLocations.rows, l.id = id ∧ l.questId = row.questId
  visited : ∀ user ∈ w.users.rows,
    user.placesVisited = w.checkIns.count fun c => c.userId = user.id

-- Nobody has checked in anywhere yet.
structure Unvisited (w : World) : Prop where
  checkIns : w.checkIns.rows = []
  arrays : ∀ row ∈ w.completions.rows, row.checkedInLocationIds = []
  counters : ∀ user ∈ w.users.rows, user.placesVisited = 0

theorem World.mem_visitsAt {w : World} {userId questId id : Id} :
    id ∈ w.visitsAt userId questId ↔
      ∃ c ∈ w.checkIns.rows, c.userId = userId ∧ c.questId = questId ∧ c.locationId = id := by
  simp [World.visitsAt, and_assoc]

-- One user checks in at a location once.
theorem World.nodup_visitsAt (w : World) (userId questId : Id) :
    (w.visitsAt userId questId).Nodup := by
  refine List.Nodup.map_on ?_ (List.Nodup.filter _ w.checkIns.nodup.of_map)
  intro c hc c' hc' hlocation
  simp only [List.mem_filter, decide_eq_true_eq] at hc hc'
  refine List.inj_on_of_nodup_map w.checkIns.nodup hc.1 hc'.1 ?_
  rw [QuestLocationCheckIn.key, QuestLocationCheckIn.key, hc.2.1, hc'.2.1, hlocation]

theorem World.mem_locationsOf {w : World} {questId : Id} {l : QuestLocation} :
    l ∈ w.locationsOf questId ↔ w.questLocations.find? l.id = some l ∧ l.questId = questId := by
  rw [World.locationsOf, List.mem_insertionSort, List.mem_filter, Table.find?_eq_some_iff]
  simp

theorem World.nodup_locationsOf (w : World) (questId : Id) :
    ((w.locationsOf questId).map QuestLocation.id).Nodup := by
  have hperm := (List.perm_insertionSort (fun l l' : QuestLocation => l.orderIndex ≤ l'.orderIndex)
    (w.questLocations.rows.filter fun l => l.questId = questId)).map QuestLocation.id
  exact hperm.nodup_iff.mpr (w.questLocations.nodup.sublist (List.filter_sublist.map _))

theorem VisitsAt.subset {first : List Id} {userId questId : Id} {w : World}
    (h : VisitsAt first userId questId w) :
    w.visitsAt userId questId ⊆ (w.locationsOf questId).map QuestLocation.id := by
  intro id hid
  obtain ⟨l, hl, hof⟩ := h.located id hid
  obtain rfl := Table.key_of_find? hl
  exact List.mem_map_of_mem (World.mem_locationsOf.mpr ⟨hl, hof⟩)

-- Every check-in at the quest is at one of its locations, and at no location twice.
theorem VisitsAt.length_le {first : List Id} {userId questId : Id} {w : World}
    (h : VisitsAt first userId questId w) :
    (w.visitsAt userId questId).length ≤ (w.locationsOf questId).length := by
  have hsub := List.subperm_of_subset (w.nodup_visitsAt userId questId) h.subset
  simpa using hsub.length_le

-- With as many check-ins as locations, no location is left out.
theorem VisitsAt.length_ge_iff {first : List Id} {userId questId : Id} {w : World}
    (h : VisitsAt first userId questId w) :
    (w.locationsOf questId).length ≤ (w.visitsAt userId questId).length ↔
      ∀ l ∈ w.locationsOf questId, l.id ∈ w.visitsAt userId questId := by
  constructor
  · intro hle l hl
    have hsub := List.subperm_of_subset (w.nodup_visitsAt userId questId) h.subset
    have hperm := hsub.perm_of_length_le (by rwa [List.length_map])
    exact hperm.mem_iff.mpr (List.mem_map_of_mem hl)
  · intro hall
    have hids : (w.locationsOf questId).map QuestLocation.id ⊆ w.visitsAt userId questId := by
      intro id hid
      obtain ⟨l, hl, rfl⟩ := List.mem_map.mp hid
      exact hall l hl
    simpa using (List.subperm_of_subset (w.nodup_locationsOf questId) hids).length_le

theorem WaypointInv.agree {w : World} (h : WaypointInv w) : WaypointsAgree w := by
  have harray : ∀ row ∈ w.completions.rows,
      row.checkedInLocationIds = w.visitsAt row.userId row.questId := by
    intro row hrow
    apply (h.visits row.userId row.questId).array
    rw [World.visitArray, ← QuestCompletion.key, Table.find?_of_mem hrow, Option.map_some]
  refine ⟨fun row hrow => ?_, fun row hrow id => ?_, fun row hrow id hid => ?_,
    fun user huser => h.counted user.id user (Table.find?_of_mem huser)⟩
  · rw [harray row hrow]
    exact w.nodup_visitsAt _ _
  · rw [harray row hrow, World.mem_visitsAt]
  · rw [harray row hrow] at hid
    obtain ⟨l, hl, hof⟩ := (h.visits row.userId row.questId).located id hid
    exact ⟨l, Table.mem_of_find? hl, Table.key_of_find? hl, hof⟩

theorem WaypointInv.of_unvisited {w : World} (h : Unvisited w) : WaypointInv w := by
  have hnone : ∀ userId questId, w.visitsAt userId questId = [] := fun _ _ => by
    rw [World.visitsAt, h.checkIns]
    rfl
  constructor
  · intro userId questId
    refine ⟨fun ids hids => ?_, fun _ => hnone _ _, fun id hid => ?_⟩
    · obtain ⟨row, hrow, rfl⟩ := Option.map_eq_some_iff.mp hids
      rw [h.arrays row (Table.mem_of_find? hrow), hnone]
      rfl
    · rw [hnone] at hid
      cases hid
  · intro id user hfound
    rw [h.counters user (Table.mem_of_find? hfound), World.visitCount, Table.count, h.checkIns]
    rfl

namespace QuestsService

-- The rows, the arrays and the counters agree in every state that requests of any users
-- at any quests reach.
theorem waypointsAgree_of_reaches (host : Host) {w : World} (hw : Unvisited w)
    {s : System Stmt World Write ApiError}
    (h : System.Reaches (AnyQuestRequest host) Guard.none (System.init w) s) :
    WaypointsAgree s.store.db := by
  have hinit : WaypointStore w.questLocations ⟨w, []⟩ := ⟨WaypointInv.of_unvisited hw, rfl⟩
  have hsafe := System.Reaches.safe (C := waypointContract w.questLocations)
    (fun p ⟨userId, questId, hp⟩ me st _ =>
      hp.wp (questCommits_waypoints w.questLocations me host userId questId))
    (fun a st hst => ?_) (System.init_safe hinit) h
  · exact hsafe.1.inv.inv.agree
  · exact ⟨⟨⟨fun u q => (hst.inv.visits u q).congr rfl rfl rfl, hst.inv.counted⟩,
      hst.locations_eq⟩, trivial⟩

theorem unvisited_onTheLongTrail : Unvisited onTheLongTrail :=
  ⟨rfl, by decide +kernel, by decide +kernel⟩

-- Check-ins at both waypoints at the same time, one of them twice.
theorem waypointsAgree_both_waypoints : ∃ s : System Stmt World Write ApiError,
    WaypointsAgree s.store.db ∧
      s.store.db.completions.rows.map QuestCompletion.checkedInLocationIds = [[1, 2]] ∧
        (s.store.db.users.find? 1).map User.placesVisited = some 2 := by
  have hps : ∀ p ∈ [visit 1, visit 2, visit 1], AnyQuestRequest .plain p := by
    simp only [List.forall_mem_cons]
    exact ⟨⟨1, 1, .checkInLocation 1 _⟩, ⟨1, 1, .checkInLocation 2 _⟩,
      ⟨1, 1, .checkInLocation 1 _⟩, by simp⟩
  obtain ⟨s, hs, hobs⟩ := System.exists_reaches_of_interleave (AnyQuestRequest .plain)
    Guard.none (System.init onTheLongTrail) [visit 1, visit 2, visit 1]
    [0, 1, 0, 1, 0, 1, 0, 1, 0, 1, 0, 1, 0, 1, 2, 2, 2, 2, 2, 0, 0, 0, 0, 1, 1, 1, 1, 1, 1, 1, 1, 1,
      2, 2, 2]
    (fun s => (s.store.db.completions.rows.map QuestCompletion.checkedInLocationIds,
      (s.store.db.users.find? 1).map User.placesVisited)) ([[1, 2]], some 2) hps (by decide +kernel)
  exact ⟨s, waypointsAgree_of_reaches .plain unvisited_onTheLongTrail hs, Prod.mk.inj hobs⟩

end QuestsService

end SideQuest
