import SideQuest.Quests.Alone

-- A started quest can be finished by visiting it, as long as nobody starts a quest whose
-- waypoints he has all visited.

namespace SideQuest

open ReadCommitted

-- The waypoints at which the user has not checked in.
def World.remaining (w : World) (userId questId : Id) : List QuestLocation :=
  (w.locationsOf questId).filter fun l => l.id ∉ w.visitsAt userId questId

namespace QuestsService

-- Within the radius of its waypoint.
def InRange (host : Host) (visit : QuestLocation × QuestCheckInBody) : Prop :=
  host.haversineMeters visit.2.position visit.1.coordinates ≤ visit.1.radiusM

structure FinishInv (locations : Table QuestLocation.id) (w : World) : Prop where
  inv : WaypointInv w
  locations_eq : w.questLocations = locations
  users : ∀ userId questId, (w.completions.find? (userId, questId)).isSome →
    (w.users.find? userId).isSome
  fewer : ∀ userId questId, Started userId questId w → 1 ≤ (w.locationsOf questId).length →
    (w.visitsAt userId questId).length < (w.locationsOf questId).length

abbrev finishRules (locations : Table QuestLocation.id) : Rules Stmt :=
  Rules.alone (FinishInv locations)

section Commits

variable {locations : Table QuestLocation.id} {me : ℕ} {s : Store World Write} {ws : List Write}
  {userId questId : Id}

-- A commit that concerns one user at one quest.
theorem FinishInv.commit (h : FinishInv locations s.db) (userId questId : Id)
    (hinv : WaypointInv (view Stmt s.db ws)) (huser : (s.db.users.find? userId).isSome)
    (hrows : ∀ u q, (u, q) ≠ (userId, questId) →
      (view Stmt s.db ws).completions.find? (u, q) = s.db.completions.find? (u, q))
    (hvisits : ∀ u q, (u, q) ≠ (userId, questId) →
      (view Stmt s.db ws).visitsAt u q = s.db.visitsAt u q)
    (hfewer : Started userId questId (view Stmt s.db ws) →
      1 ≤ (s.db.locationsOf questId).length →
        ((view Stmt s.db ws).visitsAt userId questId).length < (s.db.locationsOf questId).length) :
    (finishRules locations).Commits me s ws := by
  refine ⟨?_, trivial⟩
  show FinishInv locations _
  rw [Store.commit_db]
  have hlocations (q : Id) : (view Stmt s.db ws).locationsOf q = s.db.locationsOf q := by
    rw [World.locationsOf, view_questLocations, World.locationsOf]
  refine ⟨hinv, ?_, fun u q hsome => ?_, fun u q hstarted hpos => ?_⟩
  · rw [view_questLocations, h.locations_eq]
  · by_cases hkey : (u, q) = (userId, questId)
    · cases hkey
      exact isSome_user_view huser ws
    · rw [hrows u q hkey] at hsome
      exact isSome_user_view (h.users u q hsome) ws
  · rw [hlocations] at hpos ⊢
    by_cases hkey : (u, q) = (userId, questId)
    · cases hkey
      exact hfewer hstarted hpos
    · rw [Started, hrows u q hkey] at hstarted
      rw [hvisits u q hkey]
      exact h.fewer u q hstarted hpos

theorem FinishInv.emits : Emits (finishRules locations) me := by
  intro s e h
  exact ⟨⟨⟨fun u q => (h.inv.visits u q).congr rfl rfl rfl, h.inv.counted⟩, h.locations_eq,
    h.users, h.fewer⟩, trivial⟩

theorem loaded_locations_alone {quest : QuestWithLocations}
    (h : Loaded (finishRules locations) questId quest) (hs : FinishInv locations s.db) :
    quest.locations = s.db.locationsOf questId := by
  obtain ⟨s₀, hs₀, _, hlocations⟩ := h
  rw [hlocations, World.locationsOf, hs₀.locations_eq, World.locationsOf, hs.locations_eq]

-- A `start` with a waypoint left to visit.
theorem wp_start_finishable
    (hleft : (s.db.quests.find? questId).map Quest.status = some .PUBLISHED →
      1 ≤ (s.db.locationsOf questId).length →
        (s.db.visitsAt userId questId).length < (s.db.locationsOf questId).length) :
    (finishRules locations).wp me (fun _ _ => True) (start userId questId) s := by
  apply wp_start FinishInv.emits
  · intro s₁ s' quest row now hr₁ hquest hpublished hr hrow
    have h : FinishInv locations s'.db := Rules.rely_inv _ hr
    have hstore₁ : s₁ = s := hr₁.2
    have hstore : s' = s := hr.2.trans hstore₁
    apply h.commit userId questId
    · exact h.inv.completionUpdate rfl userId questId
    · exact h.users userId questId (by rw [hrow, Option.isSome_some])
    · exact fun u q hne => Table.find?_modify_ne _ _ (QuestCompletionUpdate.key_apply _) hne
    · exact fun _ _ _ => rfl
    · intro _ hpos
      rw [hstore₁] at hquest
      rw [hstore] at hpos ⊢
      exact hleft (by rw [hquest, Option.map_some, hpublished]) hpos
  · intro s' hr hnone huser
    have h : FinishInv locations s'.db := Rules.rely_inv _ hr
    have hnew : s'.db.visitsAt userId questId = [] := by
      apply (h.inv.visits userId questId).started
      rw [World.visitArray, hnone, Option.map_none]
    apply h.commit userId questId
    · exact h.inv.completionCreate hnone rfl
    · exact huser
    · exact fun u q hne => Table.find?_insert_ne _ hne.symm
    · exact fun _ _ _ => rfl
    · intro _ hpos
      have hnil : (view Stmt s'.db [.completionCreate
          { userId, questId, startedAt := s'.db.clock }]).visitsAt userId questId = [] := hnew
      rw [hnil]
      exact hpos

theorem not_started_of_completed {w : World} (h : Completed userId questId w) :
    ¬Started userId questId w := by
  rw [Started, h]
  exact fun he => by cases he

theorem wp_complete_finishable {host : Host} {proof : Option CompletionProof} :
    (finishRules locations).wp me (fun _ _ => True) (complete host userId questId proof) s := by
  refine wp_complete FinishInv.emits fun quest s₁ s' t _ => ?_
  have h : FinishInv locations s'.db := Rules.rely_inv _ t.to_commit
  obtain ⟨row, hrow⟩ := t.claim_found
  have hfound : s'.db.completions.find? (userId, questId) = some row :=
    t.same_completion.trans hrow
  apply h.commit userId questId
  · exact h.inv.finalizing t
  · exact h.users userId questId (by rw [hfound, Option.isSome_some])
  · exact fun u q hne => Table.find?_modify_ne _ _ (QuestCompletionUpdate.key_apply _) hne
  · exact fun _ _ _ => rfl
  · intro hstarted
    refine absurd hstarted (not_started_of_completed ?_)
    rw [Completed, t.view_completion, hfound]
    rfl

theorem wp_checkInLocation_finishable {host : Host} {locationId : Id} {body : QuestCheckInBody} :
    (finishRules locations).wp me (fun _ _ => True)
      (checkInLocation host userId questId locationId body) s := by
  apply wp_checkInLocation FinishInv.emits
  · intro quest s₁ s₂ s' t hloaded hlocated hcount hr
    have h : FinishInv locations s'.db := Rules.rely_inv _ hr
    have hsame : ∀ l ∈ locksOf Stmt t.writes, Lock.same l s₂.db s'.db := Rules.rely_same _ hr
    obtain ⟨l, hlocation, hof⟩ := hlocated.found (fun _ h => FinishInv.locations_eq h) h
    have hvisits := t.visitsAt_view (t.still_unvisited hsame)
    apply h.commit userId questId
    · exact h.inv.checkIn (t.still_unvisited hsame) hlocation hof (t.still_started hsame)
    · exact h.users userId questId (t.still_started hsame)
    · exact fun u q hne => Table.find?_modify_ne _ _ (QuestCompletionUpdate.key_apply _) hne
    · exact fun u q hne => (hvisits u q).trans (by
        rw [if_neg fun he => hne (Prod.ext he.1.symm he.2.symm), List.append_nil])
    · intro _ _
      have hstore : s' = s₂ := hr.2
      rw [t.counted_eq, loaded_locations_alone hloaded h, ← hstore] at hcount
      rwa [hvisits, if_pos ⟨rfl, rfl⟩, List.length_append, List.length_singleton]
  · intro quest seen s₁ s₂ s' t fin hloaded hlocated _
    have h : FinishInv locations s'.db := Rules.rely_inv _ fin.to_commit
    have hsame : ∀ l ∈ locksOf Stmt t.writes, Lock.same l s₂.db s'.db := fun _ => fin.same
    obtain ⟨l, hlocation, hof⟩ := hlocated.found (fun _ h => FinishInv.locations_eq h) h
    have hvisits := t.visitsAt_view (t.still_unvisited hsame)
    apply h.commit userId questId
    · rw [view_append]
      exact (h.inv.checkIn (t.still_unvisited hsame) hlocation hof
        (t.still_started hsame)).finalizing fin
    · exact h.users userId questId (t.still_started hsame)
    · intro u q hne
      rw [view_append]
      refine (Table.find?_modify_ne _ _ (QuestCompletionUpdate.key_apply _) hne).trans ?_
      exact Table.find?_modify_ne _ _ (QuestCompletionUpdate.key_apply _) hne
    · intro u q hne
      rw [view_append]
      refine (hvisits u q).trans ?_
      rw [if_neg fun he => hne (Prod.ext he.1.symm he.2.symm), List.append_nil]
    · intro hstarted
      refine absurd hstarted (not_started_of_completed ?_)
      obtain ⟨row, hrow⟩ := Option.isSome_iff_exists.mp (t.still_started hsame)
      rw [Completed, view_append, fin.view_completion, t.view_completion, hrow]
      rfl

end Commits

-- From a started quest on, the remaining waypoints are open and the last of them
-- completes it.
section Finish

variable {locations : Table QuestLocation.id} {host : Host} {w : World} {userId questId : Id}

theorem FinishInv.opens (h : FinishInv locations w) (hstarted : Started userId questId w)
    (hpublished : (w.quests.find? questId).map Quest.status = some .PUBLISHED)
    {l : QuestLocation} {body : QuestCheckInBody} (hmem : l ∈ w.remaining userId questId)
    (hrange : InRange host (l, body)) : Open host w userId questId l body := by
  obtain ⟨hlocated, hleft⟩ := List.mem_filter.mp hmem
  obtain ⟨row, hrow, _⟩ := Option.map_eq_some_iff.mp hstarted
  refine ⟨hpublished, hlocated, hrange, ?_, hstarted, ?_⟩
  · rw [Option.eq_none_iff_forall_ne_some]
    intro c hc
    have hkey : c.key = (userId, l.id) := Table.key_of_find? hc
    obtain ⟨huser, hlocation⟩ := Prod.mk.inj hkey
    have hrows := Table.mem_of_find? hc
    have hvisit : c.locationId ∈ w.visitsAt c.userId c.questId :=
      World.mem_visitsAt.mpr ⟨c, hrows, rfl, rfl, rfl⟩
    obtain ⟨l', hl', hof⟩ := (h.inv.visits c.userId c.questId).located c.locationId hvisit
    obtain ⟨hfound, hquest⟩ := World.mem_locationsOf.mp hlocated
    have hsame : l' = l := by
      rw [hlocation, hfound] at hl'
      exact (Option.some.inj hl').symm
    refine absurd (World.mem_visitsAt.mpr ⟨c, hrows, huser, ?_, hlocation⟩) (by simpa using hleft)
    rw [← hof, hsame, hquest]
  · exact h.users userId questId (by rw [hrow, Option.isSome_some])

end Finish

-- The calls that move completions and check-ins, and time.
inductive QuestCall where
  | start (userId questId : Id)
  | complete (userId questId : Id) (proof : Option CompletionProof)
  | checkInLocation (userId questId locationId : Id) (body : QuestCheckInBody)
  | wait (elapsed : ℕ)

def QuestCall.after (host : Host) : QuestCall → World → World
  | .start userId questId, w => ((QuestsService.start userId questId).alone w).2
  | .complete userId questId proof, w =>
      ((QuestsService.complete host userId questId proof).alone w).2
  | .checkInLocation userId questId locationId body, w =>
      ((QuestsService.checkInLocation host userId questId locationId body).alone w).2
  | .wait elapsed, w => Backend.happen Stmt elapsed w

-- A `start` of a published quest with waypoints finds one of them unvisited.
def QuestCall.LeavesWaypoint : QuestCall → World → Prop
  | .start userId questId, w =>
      (w.quests.find? questId).map Quest.status = some .PUBLISHED →
        1 ≤ (w.locationsOf questId).length →
          (w.visitsAt userId questId).length < (w.locationsOf questId).length
  | _, _ => True

theorem FinishInv.after (host : Host) {locations : Table QuestLocation.id} {call : QuestCall}
    {w : World} (h : FinishInv locations w) (hleft : call.LeavesWaypoint w) :
    FinishInv locations (call.after host w) := by
  have halone {α : Type} {p : Request α}
      (hp : (finishRules locations).wp 0 (fun _ _ => True) p ⟨w, []⟩) :
      FinishInv locations (p.alone w).2 := (Rules.wp_alone h hp).1
  cases call with
  | start userId questId => exact halone (wp_start_finishable hleft)
  | complete userId questId proof => exact halone wp_complete_finishable
  | checkInLocation userId questId locationId body => exact halone wp_checkInLocation_finishable
  | wait elapsed =>
      exact ⟨⟨fun u q => (h.inv.visits u q).congr rfl rfl rfl, h.inv.counted⟩, h.locations_eq,
        h.users, h.fewer⟩

end QuestsService

end SideQuest
