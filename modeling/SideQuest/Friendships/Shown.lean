import SideQuest.Friendships.Refines
import SideQuest.Friendships.FriendList
import SideQuest.Model.FriendLists

-- The lists that a user is shown are what the society says of him, and name the rows that
-- he may answer or remove.

namespace SideQuest

open FriendshipsService AuthService

section Lists

variable {w : World} {u : Id}

-- What a user is shown is what the society says of him.
structure Shown (host : Host) (w : World) : Prop where
  pending : ∀ db avatarUrl u asker,
    asker ∈ (listPendingIncoming db avatarUrl w u).map (fun dto => dto.requester.id) ↔
      w.society.bond s(asker, u) = some (.asked asker)
  friends : ∀ u v, v ∈ acceptedFriendIds w.friendships.rows u ↔
    w.society.bond s(u, v) = some .friends
  mine : ∀ db u v bond,
    (∃ f, FriendshipDto.fromEntity f ∈ listMine db w u none ∧ f.pair = s(u, v) ∧ f.bond = bond) ↔
      w.society.bond s(u, v) = some bond
  acceptable : ∀ db avatarUrl u id,
    id ∈ (listPendingIncoming db avatarUrl w u).map PendingFriendshipDto.id ↔
      (FriendshipCall.attempt host (.accept u id) w).1 = true
  removable : ∀ db u id, id ∈ (listMine db w u none).map FriendshipDto.id ↔
    (FriendshipCall.attempt host (.remove u id) w).1 = true

theorem bond_eq_some_iff (h : OnePerPair w) {pair : Sym2 Id} {bond : Bond} :
    w.society.bond pair = some bond ↔
      ∃ f ∈ w.friendships.rows, f.pair = pair ∧ f.bond = bond := by
  constructor
  · intro hbond
    obtain ⟨f, hf, rfl⟩ := Option.map_eq_some_iff.mp hbond
    obtain ⟨hmem, hpair⟩ := friendshipOf_some hf
    exact ⟨f, hmem, hpair, rfl⟩
  · rintro ⟨f, hmem, rfl, rfl⟩
    exact congrArg (Option.map Friendship.bond) (h.friendshipOf hmem)

theorem bond_of_mem (h : OnePerPair w) {f : Friendship} (hf : f ∈ w.friendships.rows) :
    w.society.bond f.pair = some f.bond := (bond_eq_some_iff h).mpr ⟨f, hf, rfl, rfl⟩

-- Every requester has a row.
theorem map_listPendingIncoming {γ : Type} (h : Sound w) (db : QueryOrder newestFriendship)
    (avatarUrl : Id → Option String) (u : Id) {g : PendingFriendshipDto → γ} {g' : Friendship → γ}
    (hg : ∀ dto f, dto.id = f.id → dto.requester.id = f.requesterId → g dto = g' f) :
    (listPendingIncoming db avatarUrl w u).map g =
      (db.order (w.friendships.rows.filter fun f => f.addresseeId = u ∧ f.status = .PENDING)).map
        g' := by
  refine Presence.map_filterMap_of_some fun f hf => ?_
  have hmem := List.mem_of_mem_filter ((db.answers _).perm.subset hf)
  have hmember : (w.users.find? f.requesterId).isSome :=
    h.closed f.pair (Option.isSome_of_eq_some (bond_of_mem h.onePerPair hmem)) f.requesterId
      (Sym2.mem_mk_left f.requesterId f.addresseeId)
  obtain ⟨requester, hrequester⟩ := Option.isSome_iff_exists.mp hmember
  have hid : requester.id = f.requesterId := Table.key_of_find? hrequester
  rw [hrequester]
  exact ⟨_, rfl, hg _ f rfl hid⟩

theorem mem_order_filter {db : QueryOrder newestFriendship} {p : Friendship → Bool}
    {f : Friendship} :
    f ∈ db.order (w.friendships.rows.filter p) ↔ f ∈ w.friendships.rows ∧ p f := by
  rw [(db.answers _).perm.mem_iff, List.mem_filter]

theorem fromEntity_injective : Function.Injective FriendshipDto.fromEntity := by
  intro f g h
  cases f
  cases g
  cases h
  rfl

theorem mem_listForUser {db : QueryOrder newestFriendship} {f : Friendship} :
    f ∈ listForUser db w u none ↔
      f ∈ w.friendships.rows ∧ (f.requesterId = u ∨ f.addresseeId = u) := by
  rw [listForUser, mem_order_filter]
  simp

-- Refused or not, as the society has it.
theorem attempt_iff (host : Host) (h : Sound w) {call : FriendshipCall} (hfresh : call.Fresh w) :
    (call.attempt host w).1 = true ↔ (w.society.outcome (call.deed host w)).isSome := by
  have hrefines := attempt_refines host h hfresh
  rw [← congrArg Prod.fst hrefines]
  rfl

-- A call about a row is about the one with its id.
theorem exists_row_iff {id : Id} {p : Friendship → Prop} :
    (∃ f ∈ w.friendships.rows, f.id = id ∧ p f) ↔ ∃ f, w.friendships.find? id = some f ∧ p f := by
  simp only [Table.find?_eq_some_iff, and_assoc]

theorem accept_iff (host : Host) (h : Sound w) {id : Id} :
    (FriendshipCall.attempt host (.accept u id) w).1 = true ↔
      ∃ f ∈ w.friendships.rows, f.id = id ∧ f.addresseeId = u ∧ f.status = .PENDING := by
  have hfresh : (FriendshipCall.accept u id).Fresh w := fun _ hid => by cases hid
  rw [attempt_iff host h hfresh, exists_row_iff, FriendshipCall.deed]
  cases hfound : w.friendships.find? id with
  | none => simp [Society.outcome]
  | some f =>
      have hbond := bond_of_mem h.onePerPair (Table.mem_of_find? hfound)
      simp only [Option.elim, Society.outcome, hbond]
      have hpair : f.pair = s(f.requesterId, u) ↔ f.addresseeId = u := Sym2.congr_right
      cases hstatus : f.status <;> simp [Friendship.bond, hstatus, hpair]

theorem remove_iff (host : Host) (h : Sound w) {id : Id} :
    (FriendshipCall.attempt host (.remove u id) w).1 = true ↔
      ∃ f ∈ w.friendships.rows, f.id = id ∧ (f.requesterId = u ∨ f.addresseeId = u) := by
  have hfresh : (FriendshipCall.remove u id).Fresh w := fun _ hid => by cases hid
  rw [attempt_iff host h hfresh, exists_row_iff, FriendshipCall.deed]
  cases hfound : w.friendships.find? id with
  | none => simp [Society.outcome]
  | some f =>
      have hbond := bond_of_mem h.onePerPair (Table.mem_of_find? hfound)
      simp [Society.outcome, hbond, f.mem_pair]

theorem shown_of_sound (host : Host) (h : Sound w) : Shown host w where
  pending db avatarUrl u asker := by
    rw [bond_eq_some_iff h.onePerPair,
      map_listPendingIncoming h db avatarUrl u fun _ f _ hrequester => hrequester, List.mem_map]
    constructor
    · rintro ⟨f, hf, rfl⟩
      obtain ⟨hmem, hpending⟩ := mem_order_filter.mp hf
      obtain ⟨rfl, hstatus⟩ := of_decide_eq_true hpending
      exact ⟨f, hmem, rfl, by rw [Friendship.bond, hstatus]⟩
    · rintro ⟨f, hmem, hpair, hbond⟩
      obtain ⟨hstatus, rfl⟩ := Friendship.bond_eq_asked hbond
      have haddressee : f.addresseeId = u := Sym2.congr_right.mp hpair
      exact ⟨f, mem_order_filter.mpr ⟨hmem, decide_eq_true ⟨haddressee, hstatus⟩⟩, rfl⟩
  friends u v := by
    have hother (f : Friendship) : f.pair = s(u, v) ∧ f.bond = .friends ↔
        (f.status = .ACCEPTED ∧ (f.requesterId = u ∨ f.addresseeId = u)) ∧
          (if f.requesterId = u then f.addresseeId else f.requesterId) = v := by
      rw [Friendship.pair_eq_iff, Friendship.bond_eq_friends, Friendship.Joins]
      grind
    rw [bond_eq_some_iff h.onePerPair, acceptedFriendIds, List.mem_eraseDups, List.mem_map]
    refine exists_congr fun f => ?_
    rw [hother, List.mem_filter, decide_eq_true_eq, and_assoc]
  mine db u v bond := by
    rw [bond_eq_some_iff h.onePerPair]
    refine exists_congr fun f => ?_
    rw [listMine, List.mem_map_of_injective fromEntity_injective, mem_listForUser]
    refine ⟨fun hf => ⟨hf.1.1, hf.2⟩, fun hf => ⟨⟨hf.1, (f.mem_pair u).mp ?_⟩, hf.2⟩⟩
    rw [hf.2.1]
    exact Sym2.mem_mk_left u v
  acceptable db avatarUrl u id := by
    rw [accept_iff host h, map_listPendingIncoming h db avatarUrl u fun _ f hid _ => hid,
      List.mem_map]
    refine exists_congr fun f => ?_
    rw [mem_order_filter, decide_eq_true_eq, and_assoc]
    exact and_congr_right fun _ => and_comm
  removable db u id := by
    rw [remove_iff host h, listMine, List.map_map, List.mem_map]
    refine exists_congr fun f => ?_
    rw [mem_listForUser, and_assoc]
    exact and_congr_right fun _ => and_comm

end Lists

-- Whatever is called, the service answers as the society does, stands for the same bonds
-- afterwards, and shows every user his own.
theorem friendships_refine (host : Host) {w : World} (hw : Sound w) {calls : List FriendshipCall}
    (hfresh : EachMeets (fun call w => (call.attempt host w).2) FriendshipCall.Fresh calls w) :
    Serving.serve Society.attempt (Serving.meanings (FriendshipCall.attempt host)
        (FriendshipCall.deed host) calls w) w.society =
      ((Serving.serve (FriendshipCall.attempt host) calls w).1,
        (Serving.serve (FriendshipCall.attempt host) calls w).2.society) ∧
      Shown host (Serving.serve (FriendshipCall.attempt host) calls w).2 :=
  ⟨(simulates_society host).serve_eq hw hfresh,
    shown_of_sound host ((simulates_society host).inv_serve hw hfresh)⟩

-- A guest joins as the friend of user 1, leaves him, is asked again and blocks him.
def guestCalls : List FriendshipCall :=
  [.register (guest "guest") ⟨2, 7⟩, .request 2 1 8, .remove 2 7, .request 1 2 8, .accept 1 8,
    .accept 2 8, .block 2 1 9]

theorem friendships_refine_guest :
    (Serving.serve Society.attempt (Serving.meanings (FriendshipCall.attempt .plain)
        (FriendshipCall.deed .plain) guestCalls invited) invited.society =
      ((Serving.serve (FriendshipCall.attempt .plain) guestCalls invited).1,
        (Serving.serve (FriendshipCall.attempt .plain) guestCalls invited).2.society) ∧
      Shown .plain (Serving.serve (FriendshipCall.attempt .plain) guestCalls invited).2) ∧
    Serving.meanings (FriendshipCall.attempt .plain) (FriendshipCall.deed .plain) guestCalls invited =
      [.join 2 (some 1), .ask 2 1, .remove 2 s(1, 2), .ask 1 2, .accept 1 s(1, 2),
        .accept 2 s(1, 2), .block 2 1] ∧
    (Serving.serve (FriendshipCall.attempt .plain) guestCalls invited).1 =
      [true, false, true, true, false, true, true] := by
  have hsound : Sound invited := by
    refine ⟨fun _ _ f hf => ?_, fun pair hbond => ?_⟩
    · cases hf
    · cases hbond
  refine ⟨friendships_refine .plain hsound ?_, by decide +kernel, by decide +kernel⟩
  refine ⟨?_, ?_, ?_, ?_, ?_, ?_, ?_, trivial⟩ <;>
  · intro id hid
    cases hid <;> decide +kernel

end SideQuest
