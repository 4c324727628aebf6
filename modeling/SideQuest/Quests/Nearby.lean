import SideQuest.Model.Nearby
import SideQuest.Listings.Walk
import SideQuest.Lib.Cut

-- The quests near a place: which of them a query that is cut off without an order returns.

namespace SideQuest

namespace QuestsService

open Paging

section Refine

variable {K : Type} [LinearOrder K] {geo : GeoService K} {center : GeoService.Coordinates K}
  {radius : K} {candidates : List (LocatedQuest K)}

-- How far a quest is: as far as its nearest location.
def LocatedQuest.distance (geo : GeoService K) (center : GeoService.Coordinates K)
    (q : LocatedQuest K) : WithTop K := nearest geo center q.locations

-- A quest is within a radius if one of its locations is.
theorem distance_le_iff {q : LocatedQuest K} : q.distance geo center ≤ radius ↔
    ∃ loc ∈ q.locations, geo.haversineMeters center loc ≤ radius := by
  have hfrom (locations : List (GeoService.Coordinates K)) (start : WithTop K) :
      locations.foldl (fun (nearest : WithTop K) loc =>
        let d := geo.haversineMeters center loc
        if d < nearest then d else nearest) start ≤ radius ↔
        start ≤ radius ∨ ∃ loc ∈ locations, geo.haversineMeters center loc ≤ radius := by
    induction locations generalizing start with
    | nil => simp
    | cons loc rest ih =>
        rw [List.foldl_cons, ih, List.exists_mem_cons_iff, ← or_assoc]
        refine or_congr_left ?_
        rw [← WithTop.coe_le_coe (a := radius)]
        dsimp only
        split
        · rename_i hlt
          exact ⟨Or.inr, fun h => h.elim hlt.le.trans id⟩
        · rename_i hge
          exact ⟨Or.inl, fun h => h.elim id (not_lt.mp hge).trans⟩
  have hstart : ¬(⊤ : WithTop K) ≤ radius := not_le.mpr (WithTop.coe_lt_top radius)
  exact (hfrom q.locations ⊤).trans (or_iff_right hstart)

theorem mem_refine {found : LocatedQuest K × K} : found ∈ refine geo center radius candidates ↔
    found.1 ∈ candidates ∧ found.1.distance geo center = found.2 ∧ found.2 ≤ radius := by
  obtain ⟨q, d⟩ := found
  simp only [refine, List.mem_filterMap]
  constructor
  · rintro ⟨q', hq', hd⟩
    split at hd
    · cases hd
    · rename_i d' hnear
      split_ifs at hd with hle
      obtain ⟨rfl, rfl⟩ := Prod.mk.inj (Option.some.inj hd)
      exact ⟨hq', hnear, hle⟩
  · rintro ⟨hq, hdist, hle⟩
    refine ⟨q, hq, ?_⟩
    have hnear : nearest geo center q.locations = some d := hdist
    rw [hnear]
    exact if_pos hle

-- No quest is refined into two.
theorem map_fst_refine_sublist :
    ((refine geo center radius candidates).map Prod.fst).Sublist candidates := by
  induction candidates with
  | nil => exact List.Sublist.slnil
  | cons q rest ih =>
      rw [refine, List.filterMap_cons]
      split
      · exact ih.cons q
      · rename_i found hfound
        split at hfound
        · cases hfound
        · split_ifs at hfound
          obtain rfl := Option.some.inj hfound
          exact ih.cons_cons q

end Refine

section Candidates

variable {K : Type} [Field K] [LinearOrder K]

-- The candidates of a query, whose `lat` and `lng` are the center.
def candidatesOf (geo : GeoService K) (center : GeoService.Coordinates K)
    (quests : List (LocatedQuest K)) (query : ListQuestsNearbyDto K) : List (LocatedQuest K) :=
  quests.filter (isCandidate query (geo.boundingBox center (query.radiusM.getD 5000 : ℕ)))

theorem nodup_candidatesOf {geo : GeoService K} {center : GeoService.Coordinates K}
    (quests : Table fun q : LocatedQuest K => q.id) (query : ListQuestsNearbyDto K) :
    ((candidatesOf geo center quests.rows query).map fun q => q.id).Nodup :=
  quests.nodup.sublist (List.filter_sublist.map _)

end Candidates

section ListNearby

variable {K : Type} [Field K] [LinearOrder K] [FloorRing K]

-- What a search for the nearest quests among some candidates promises.
structure NearestFirst (geo : GeoService K) (center : GeoService.Coordinates K) (radius : K)
    (candidates : List (LocatedQuest K)) (result : List (NearbyQuestDto K)) : Prop where
  closer : ∀ dto ∈ result, ∀ q ∈ candidates,
    q.distance geo center < dto.quest.distance geo center → ∃ dto' ∈ result, dto'.quest = q
  sorted : result.Pairwise fun a b => a.quest.distance geo center ≤ b.quest.distance geo center
  within : ∀ dto ∈ result, dto.quest.distance geo center ≤ radius
  once : (result.map fun dto => dto.quest.id).Nodup

variable {geo : GeoService K} {center : GeoService.Coordinates K} {radius : K}
  {taken : List (LocatedQuest K)}

-- The response for the candidates that the query has returned.
def nearbyOf (geo : GeoService K) (center : GeoService.Coordinates K) (radius : K)
    (taken : List (LocatedQuest K)) : List (NearbyQuestDto K) :=
  ((refine geo center radius taken).mergeSort fun a b => a.2 ≤ b.2).map (toNearbyDto geo center)

theorem exists_dto_iff {q : LocatedQuest K} :
    (∃ dto ∈ nearbyOf geo center radius taken, dto.quest = q) ↔
      q ∈ taken ∧ q.distance geo center ≤ radius := by
  constructor
  · rintro ⟨dto, hdto, rfl⟩
    obtain ⟨found, hfound, rfl⟩ := List.mem_map.mp hdto
    obtain ⟨hmem, hdist, hle⟩ := mem_refine.mp (List.mem_mergeSort.mp hfound)
    exact ⟨hmem, hdist.trans_le (WithTop.coe_le_coe.mpr hle)⟩
  · rintro ⟨hmem, hle⟩
    obtain ⟨d, hd, hdle⟩ := WithTop.le_coe_iff.mp hle
    have hfound : (q, d) ∈ refine geo center radius taken := mem_refine.mpr ⟨hmem, hd, hdle⟩
    exact ⟨_, List.mem_map.mpr ⟨_, List.mem_mergeSort.mpr hfound, rfl⟩, rfl⟩

theorem sorted_nearbyOf : (nearbyOf geo center radius taken).Pairwise fun a b =>
    a.quest.distance geo center ≤ b.quest.distance geo center := by
  have hsorted : ((refine geo center radius taken).mergeSort fun a b => a.2 ≤ b.2).Pairwise
      fun a b => decide (a.2 ≤ b.2) = true := by
    refine List.pairwise_mergeSort (fun a b c hab hbc => ?_) (fun a b => ?_) _
    · exact decide_eq_true ((of_decide_eq_true hab).trans (of_decide_eq_true hbc))
    · simpa using le_total a.2 b.2
  refine List.pairwise_map.mpr (hsorted.imp_of_mem fun {a b} ha hb hle => ?_)
  obtain ⟨-, hdist, -⟩ := mem_refine.mp (List.mem_mergeSort.mp ha)
  obtain ⟨-, hdist', -⟩ := mem_refine.mp (List.mem_mergeSort.mp hb)
  show a.1.distance geo center ≤ b.1.distance geo center
  rw [hdist, hdist']
  exact WithTop.coe_le_coe.mpr (of_decide_eq_true hle)

theorem nodup_nearbyOf (hnodup : (taken.map fun q => q.id).Nodup) :
    ((nearbyOf geo center radius taken).map fun dto => dto.quest.id).Nodup := by
  have hperm : ((nearbyOf geo center radius taken).map fun dto => dto.quest.id).Perm
      (((refine geo center radius taken).map Prod.fst).map fun q => q.id) := by
    rw [nearbyOf, List.map_map, List.map_map]
    exact (List.mergeSort_perm _ _).map _
  exact hperm.nodup_iff.mpr (hnodup.sublist (map_fst_refine_sublist.map _))

-- The response is the right one if the candidates that were returned are the closest.
theorem nearestFirst_iff {candidates : List (LocatedQuest K)}
    (hnodup : (taken.map fun q => q.id).Nodup) :
    NearestFirst geo center radius candidates (nearbyOf geo center radius taken) ↔
      TakesCloser (LocatedQuest.distance geo center) (fun q => q.distance geo center ≤ radius)
        candidates taken := by
  constructor
  · intro h y hy hnear x hx hlt
    obtain ⟨dto, hdto, rfl⟩ := exists_dto_iff.mpr ⟨hy, hnear⟩
    exact (exists_dto_iff.mp (h.closer dto hdto x hx hlt)).1
  · intro h
    have hwithin (dto : NearbyQuestDto K) (hdto : dto ∈ nearbyOf geo center radius taken) :=
      exists_dto_iff.mp ⟨dto, hdto, rfl⟩
    refine ⟨fun dto hdto q hq hlt => ?_, sorted_nearbyOf, fun dto hdto => (hwithin dto hdto).2,
      nodup_nearbyOf hnodup⟩
    obtain ⟨hmem, hnear⟩ := hwithin dto hdto
    exact exists_dto_iff.mpr ⟨h dto.quest hmem hnear q hq hlt, hlt.le.trans hnear⟩

-- Whatever the database returns of the candidates.
theorem forall_nearestFirst_iff {candidates : List (LocatedQuest K)}
    (hnodup : (candidates.map fun q => q.id).Nodup) :
    (∀ db : QueryOrder (unordered (α := LocatedQuest K)),
      NearestFirst geo center radius candidates
        (nearbyOf geo center radius ((db.order candidates).take 200))) ↔
      candidates.length ≤ 200 ∨ ∀ x ∈ candidates, ∀ y ∈ candidates,
        y.distance geo center ≤ radius → y.distance geo center ≤ x.distance geo center := by
  rw [← forall_takesCloser_iff (.of_map _ hnodup) (by decide)]
  have hids {answer : List (LocatedQuest K)} (hperm : answer.Perm candidates) :
      ((answer.take 200).map fun q => q.id).Nodup :=
    ((hperm.map _).nodup_iff.mpr hnodup).sublist ((List.take_sublist 200 answer).map _)
  constructor
  · intro hall answer hperm
    have hany : Answers (unordered (α := LocatedQuest K)).key candidates answer :=
      ⟨hperm, List.pairwise_of_forall fun _ _ => le_rfl⟩
    obtain ⟨db, rfl⟩ := exists_queryOrder hany
    exact (nearestFirst_iff (hids hperm)).mp (hall db)
  · intro hall db
    have hperm := (db.answers candidates).perm
    exact (nearestFirst_iff (hids hperm)).mpr (hall _ hperm)

def FindsNearest (geo : GeoService K) (center : GeoService.Coordinates K)
    (quests : List (LocatedQuest K)) (query : ListQuestsNearbyDto K) : Prop :=
  ∀ db : QueryOrder (unordered (α := LocatedQuest K)), ∃ result,
    listNearby geo quests
      { query with lat := some center.latitude, lng := some center.longitude } db = .ok result ∧
    NearestFirst geo center (query.radiusM.getD 5000 : ℕ) (candidatesOf geo center quests query)
      result

theorem findsNearest_iff_nearbyOf (quests : List (LocatedQuest K)) (query : ListQuestsNearbyDto K) :
    FindsNearest geo center quests query ↔
      ∀ db : QueryOrder (unordered (α := LocatedQuest K)),
        NearestFirst geo center (query.radiusM.getD 5000 : ℕ) (candidatesOf geo center quests query)
          (nearbyOf geo center (query.radiusM.getD 5000 : ℕ)
            ((db.order (candidatesOf geo center quests query)).take 200)) := by
  refine forall_congr' fun db => ⟨?_, fun h => ⟨_, rfl, h⟩⟩
  rintro ⟨result, hresult, h⟩
  obtain rfl := Except.ok.inj hresult
  exact h

-- The search finds the nearest quests, whatever the database does, exactly if it takes all
-- candidates, or if no candidate is nearer than one within the radius.
theorem findsNearest_iff (geo : GeoService K) (center : GeoService.Coordinates K)
    (quests : Table fun q : LocatedQuest K => q.id) (query : ListQuestsNearbyDto K) :
    FindsNearest geo center quests.rows query ↔
      (candidatesOf geo center quests.rows query).length ≤ 200 ∨
        ∀ x ∈ candidatesOf geo center quests.rows query,
          ∀ y ∈ candidatesOf geo center quests.rows query,
            y.distance geo center ≤ ((query.radiusM.getD 5000 : ℕ) : K) →
              y.distance geo center ≤ x.distance geo center := by
  rw [findsNearest_iff_nearbyOf]
  exact forall_nearestFirst_iff (nodup_candidatesOf quests query)

end ListNearby

-- Along one meridian, with a meter for each degree.
def meridian : GeoService ℚ where
  haversineMeters a b := |b.latitude - a.latitude|
  boundingBox center radius := ⟨center.latitude - radius, center.latitude + radius, ⊥, ⊤⟩

def questAt (i : ℕ) : LocatedQuest ℚ where
  id := i
  status := .PUBLISHED
  title := "Walk north"
  createdAt := 0
  locations := [⟨i, 0⟩]

theorem nodup_questAt (n : ℕ) : (((List.range n).map questAt).map fun q => q.id).Nodup := by
  rw [List.map_map]
  exact (List.map_id (List.range n)).symm ▸ List.nodup_range

-- One quest more than the query takes, each a meter further than the one before.
def walksNorth : Table fun q : LocatedQuest ℚ => q.id :=
  ⟨(List.range 201).map questAt, nodup_questAt 201⟩

theorem candidatesOf_walksNorth :
    candidatesOf meridian ⟨0, 0⟩ walksNorth.rows {} = walksNorth.rows := by
  refine List.filter_eq_self.mpr fun q hq => ?_
  obtain ⟨i, hi, rfl⟩ := List.mem_map.mp hq
  have hnorth : (i : ℚ) ≤ 5000 := by exact_mod_cast (List.mem_range.mp hi).le.trans (by decide)
  have hsouth : -(5000 : ℚ) ≤ i := le_trans (by decide) (Nat.cast_nonneg i)
  simp [isCandidate, nearbyWhere, questAt, truthy, GeoService.BoundingBox.contains, meridian,
    hnorth, hsouth]

-- The one at hand is cut off, and the next one is returned.
theorem not_findsNearest_walksNorth : ¬FindsNearest meridian ⟨0, 0⟩ walksNorth.rows {} := by
  rw [findsNearest_iff_nearbyOf, forall_nearestFirst_iff (nodup_candidatesOf walksNorth {}),
    candidatesOf_walksNorth]
  rintro (hfew | hequal)
  · simp [walksNorth] at hfew
  · have hmem (i : ℕ) (hi : i < 201) : questAt i ∈ walksNorth.rows :=
      List.mem_map_of_mem (List.mem_range.mpr hi)
    have hdist (i : ℕ) : (questAt i).distance meridian ⟨0, 0⟩ = (i : ℚ) := by
      simp [LocatedQuest.distance, nearest, questAt, meridian]
    have hle := hequal (questAt 0) (hmem 0 (by decide)) (questAt 1) (hmem 1 (by decide))
    rw [hdist, hdist] at hle
    have hnear : ((1 : ℕ) : ℚ) ≤ ((0 : ℕ) : ℚ) :=
      WithTop.coe_le_coe.mp (hle (WithTop.coe_le_coe.mpr (Nat.cast_le.mpr (by decide))))
    exact absurd (Nat.cast_le.mp hnear) (by decide)

end QuestsService

end SideQuest
