import SideQuest.Model.Map
import SideQuest.Listings.Walk
import SideQuest.Lib.Cut

-- What the map shows of the rows that match, whatever order the database has them in.

namespace SideQuest

namespace MapService

open Paging

open PublicStats (Texts)

-- The pins of one kind are those of some of the matching rows: of all, or of as many as the
-- limit allows.
structure PinsOf {α : Type} (pin : α → MapPinDto) (limit : ℕ) (matching : List α)
    (pins : List MapPinDto) : Prop where
  sound : ∀ p ∈ pins, ∃ row ∈ matching, p = pin row
  count : pins.length = min limit matching.length
  once : (pins.map MapPinDto.id).Nodup
  all : matching.length ≤ limit → ∀ row ∈ matching, pin row ∈ pins

theorem pinsOf_take {α : Type} {pin : α → MapPinDto} {limit : ℕ} {matching : List α}
    (hnodup : (matching.map fun row => (pin row).id).Nodup)
    (order : QueryOrder (QuestsService.unordered (α := α))) :
    PinsOf pin limit matching ((findMany order matching 0 limit).map pin) := by
  have hperm := (order.answers matching).perm
  have htake : findMany order matching 0 limit = (order.order matching).take limit := rfl
  refine ⟨fun p hp => ?_, ?_, ?_, fun hfew row hrow => ?_⟩
  · obtain ⟨row, hrow, rfl⟩ := List.mem_map.mp hp
    exact ⟨row, hperm.subset (List.mem_of_mem_take hrow), rfl⟩
  · rw [List.length_map, htake, List.length_take, hperm.length_eq]
  · rw [List.map_map]
    exact ((hperm.map _).nodup_iff.mpr hnodup).sublist ((List.take_sublist _ _).map _)
  · rw [htake, List.take_of_length_le (hperm.length_eq.trans_le hfew)]
    exact List.mem_map_of_mem (hperm.symm.subset hrow)

-- A row is sure to be shown exactly if all rows fit.
theorem forall_mem_pins_iff {α : Type} {pin : α → MapPinDto} {limit : ℕ} {matching : List α}
    (hnodup : (matching.map fun row => (pin row).id).Nodup) (hlimit : 0 < limit) {row : α}
    (hrow : row ∈ matching) :
    (∀ order : QueryOrder (QuestsService.unordered (α := α)),
      pin row ∈ (findMany order matching 0 limit).map pin) ↔ matching.length ≤ limit := by
  constructor
  · intro hall
    by_contra hmany
    have hrows : matching.Nodup := .of_map _ hnodup
    obtain ⟨other, hother, hne⟩ : ∃ other ∈ matching, row ≠ other := by
      by_contra hnone
      push Not at hnone
      have hsub : matching ⊆ [row] := fun y hy => List.mem_singleton.mpr (hnone y hy).symm
      have hlength := (List.subperm_of_subset hrows hsub).length_le
      rw [List.length_singleton] at hlength
      omega
    obtain ⟨answer, hperm, _, hcut⟩ :=
      exists_perm_cut hrows hlimit (not_le.mp hmany) hrow hother hne
    have hany : Answers (QuestsService.unordered (α := α)).key matching answer :=
      ⟨hperm, List.pairwise_of_forall fun _ _ => le_rfl⟩
    obtain ⟨order, rfl⟩ := exists_queryOrder hany
    obtain ⟨row', hrow', hsame⟩ := List.mem_map.mp (hall order)
    have hmem : row' ∈ matching := hperm.subset (List.mem_of_mem_take hrow')
    have hrow'' : row' = row :=
      List.inj_on_of_nodup_map hnodup hmem hrow (congrArg MapPinDto.id hsame)
    exact hcut (hrow'' ▸ hrow')
  · exact fun hfew order => (pinsOf_take hnodup order).all hfew row hrow

section Pins

variable (host : Host) (texts : Texts) (db : MapDb) (query : MapBoundsQueryDto) (bounds : Bounds)

def questPin (row : MapLocation) : MapPinDto := attachDistance host bounds (buildQuestPin row)

-- The pin of a business that has a place.
def businessPin (row : Business) : MapPinDto :=
  attachDistance host bounds
    { id := row.id, kind := .BUSINESS, latitude := row.latitude.getD 0, longitude := row.longitude.getD 0,
      title := row.name, refId := row.id, imageUrl := row.logoUrl }

theorem buildBusinessPin_of_wants {row : Business} (h : wantsBusiness bounds row = true) :
    (buildBusinessPin row).map (attachDistance host bounds) = some (businessPin host bounds row) := by
  simp only [wantsBusiness, Bool.and_eq_true, Option.any_eq_true] at h
  obtain ⟨_, lat, hlat, lng, hlng, _⟩ := h
  simp only [buildBusinessPin, businessPin, Option.mem_def.mp hlat, Option.mem_def.mp hlng,
    Option.map_some, Option.getD_some]

theorem nodup_matchingLocations :
    ((matchingLocations texts db query bounds).map fun row => (questPin host bounds row).id).Nodup := by
  unfold matchingLocations
  split
  · exact db.locations.nodup.sublist (List.filter_sublist.map _)
  · exact List.nodup_nil

theorem nodup_matchingBusinesses :
    ((matchingBusinesses texts db query bounds).map
      fun row => (businessPin host bounds row).id).Nodup := by
  unfold matchingBusinesses
  split
  · exact db.businesses.nodup.sublist (List.filter_sublist.map _)
  · exact List.nodup_nil

theorem wants_of_matching {row : Business} (h : row ∈ matchingBusinesses texts db query bounds) :
    wantsBusiness bounds row = true := by
  unfold matchingBusinesses at h
  split at h
  · exact (List.mem_filter.mp h).2
  · cases h

-- What is on the map, in order: the waypoints and then the businesses.
structure Shows (pins : List MapPinDto) : Prop where
  split : ∃ quests businesses, pins = quests ++ businesses ∧
    PinsOf (questPin host bounds) (query.limit.getD 200)
      (matchingLocations texts db query bounds) quests ∧
    PinsOf (businessPin host bounds) (query.limit.getD 200)
      (matchingBusinesses texts db query bounds) businesses

theorem getPinsInBounds_eq (orders : MapOrders) (hbounds : boundsOf query = .ok bounds) :
    getPinsInBounds host texts orders db query = .ok
      ((findMany orders.locations (matchingLocations texts db query bounds) 0
          (query.limit.getD 200)).map (questPin host bounds) ++
        (findMany orders.businesses (matchingBusinesses texts db query bounds) 0
          (query.limit.getD 200)).map (businessPin host bounds)) := by
  have hbusinesses : ∀ row ∈ findMany orders.businesses (matchingBusinesses texts db query bounds) 0
      (query.limit.getD 200), (buildBusinessPin row).map (attachDistance host bounds) =
        some (businessPin host bounds row) := fun row hrow =>
    buildBusinessPin_of_wants host bounds (wants_of_matching texts db query bounds
      ((orders.businesses.answers _).perm.subset (List.mem_of_mem_take hrow)))
  have hpins (rows : List Business) (hrows : ∀ row ∈ rows,
      (buildBusinessPin row).map (attachDistance host bounds) = some (businessPin host bounds row)) :
      (rows.filterMap buildBusinessPin).map (attachDistance host bounds) =
        rows.map (businessPin host bounds) := by
    rw [List.map_filterMap, List.filterMap_congr hrows, ← List.filterMap_eq_map]
    rfl
  have hall := hpins _ hbusinesses
  unfold getPinsInBounds
  rw [hbounds]
  refine congrArg Except.ok ?_
  rw [List.map_append, hall, List.map_map]
  rfl

def anyOrder {α : Type} : QueryOrder (QuestsService.unordered (α := α)) :=
  ⟨_, answers_insertionSort (QuestsService.unordered (α := α)).key⟩

-- Either the bounds are refused, or the map shows what matches; what the database decides
-- is only what is left out when too much matches.
theorem pins_exact : match boundsOf query with
    | .error e => ∀ orders, getPinsInBounds host texts orders db query = .error e
    | .ok bounds =>
        (∀ orders, ∃ pins, getPinsInBounds host texts orders db query = .ok pins ∧
          Shows host texts db query bounds pins) ∧
        (0 < query.limit.getD 200 →
          (∀ row ∈ matchingLocations texts db query bounds,
            (∀ orders, ∃ pins, getPinsInBounds host texts orders db query = .ok pins ∧
              questPin host bounds row ∈ pins) ↔
                (matchingLocations texts db query bounds).length ≤ query.limit.getD 200) ∧
          ∀ row ∈ matchingBusinesses texts db query bounds,
            (∀ orders, ∃ pins, getPinsInBounds host texts orders db query = .ok pins ∧
              businessPin host bounds row ∈ pins) ↔
                (matchingBusinesses texts db query bounds).length ≤ query.limit.getD 200) := by
  cases hbounds : boundsOf query with
  | error e =>
      intro orders
      unfold getPinsInBounds
      rw [hbounds]
      rfl
  | ok bounds =>
      have hpins (orders : MapOrders) := getPinsInBounds_eq host texts db query bounds orders hbounds
      have hlocations := nodup_matchingLocations host texts db query bounds
      have hbusinesses := nodup_matchingBusinesses host texts db query bounds
      refine ⟨fun orders => ⟨_, hpins orders, _, _, rfl, pinsOf_take hlocations orders.locations,
        pinsOf_take hbusinesses orders.businesses⟩, fun hlimit => ⟨fun row hrow => ?_,
          fun row hrow => ?_⟩⟩
      · rw [← forall_mem_pins_iff hlocations hlimit hrow]
        constructor
        · intro hall order
          obtain ⟨pins, hget, hmem⟩ := hall ⟨order, anyOrder⟩
          obtain rfl := Except.ok.inj ((hpins _).symm.trans hget)
          refine (List.mem_append.mp hmem).resolve_right fun hother => ?_
          obtain ⟨other, _, hsame⟩ := List.mem_map.mp hother
          cases congrArg MapPinDto.kind hsame
        · exact fun hall orders => ⟨_, hpins orders, List.mem_append_left _ (hall orders.locations)⟩
      · rw [← forall_mem_pins_iff hbusinesses hlimit hrow]
        constructor
        · intro hall order
          obtain ⟨pins, hget, hmem⟩ := hall ⟨anyOrder, order⟩
          obtain rfl := Except.ok.inj ((hpins _).symm.trans hget)
          refine (List.mem_append.mp hmem).resolve_left fun hother => ?_
          obtain ⟨other, _, hsame⟩ := List.mem_map.mp hother
          cases congrArg MapPinDto.kind hsame
        · exact fun hall orders => ⟨_, hpins orders, List.mem_append_right _ (hall orders.businesses)⟩

end Pins

def stopAt (id : Id) (latitude : ℚ) : MapLocation where
  id := id
  latitude := latitude
  longitude := 1
  questId := 7
  title := "Bridge walk"
  status := .PUBLISHED
  difficulty := .EASY

-- Two stops in sight, and room for one.
def crowded : MapDb where
  locations := (Table.empty.insert (stopAt 1 1)).insert (stopAt 2 2)
  businesses := Table.empty

def onePin : MapBoundsQueryDto :=
  { south := some 0, north := some 3, west := some 0, east := some 3, limit := some 1 }

theorem pins_exact_crowded : ¬∀ orders, ∃ pins,
    getPinsInBounds Host.plain ⟨id, id, id, Char.isWhitespace⟩ orders crowded onePin = .ok pins ∧
      questPin Host.plain ⟨0, 3, 0, 3⟩ (stopAt 1 1) ∈ pins := by
  have hexact := pins_exact Host.plain ⟨id, id, id, Char.isWhitespace⟩ crowded onePin
  have hbounds : boundsOf onePin = .ok ⟨0, 3, 0, 3⟩ := rfl
  rw [hbounds] at hexact
  have hmatching : matchingLocations ⟨id, id, id, Char.isWhitespace⟩ crowded onePin ⟨0, 3, 0, 3⟩ =
      [stopAt 1 1, stopAt 2 2] := by decide +kernel
  have hiff := (hexact.2 (by decide)).1 (stopAt 1 1) (hmatching ▸ List.mem_cons_self)
  rw [hiff, hmatching]
  decide

end MapService

end SideQuest
