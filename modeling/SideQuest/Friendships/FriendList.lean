import SideQuest.Friendships.Presence
import SideQuest.Model.Stats

-- The lists of two friends agree with each other, with the number on the profile and with
-- the users that the feed is about.

namespace SideQuest

namespace Presence

open FriendshipsService

-- Whom an accepted friendship is with, seen from one of its users.
def acceptedOf (userId : Id) (f : Friendship) : Bool :=
  f.status = .ACCEPTED ∧ (f.requesterId = userId ∨ f.addresseeId = userId)

def otherOf (userId : Id) (f : Friendship) : Id :=
  if f.requesterId = userId then f.addresseeId else f.requesterId

-- The foreign keys of `Friendship`.
def UsersExist (social : Social) : Prop :=
  ∀ f ∈ social.friendships.rows, (social.users.find? f.requesterId).isSome ∧
    (social.users.find? f.addresseeId).isSome

variable {orders : FriendOrders} {w : World} {u v : Id}

theorem friends_ids (w : World) (u : Id) : (friends w u).map Prod.fst =
    (w.social.friendships.rows.filter fun f => acceptedOf u f.toFriendship).map fun f =>
      otherOf u f.toFriendship := by
  rw [friends, List.map_map]
  rfl

theorem exists_user_of_friend (hw : UsersExist w.social) {fr : Id × Time} (hfr : fr ∈ friends w u) :
    ∃ user, w.social.users.find? fr.1 = some user := by
  obtain ⟨f, hf, rfl⟩ := List.mem_map.mp hfr
  obtain ⟨hrequester, haddressee⟩ := hw f (List.mem_of_mem_filter hf)
  dsimp only
  split
  · exact Option.isSome_iff_exists.mp haddressee
  · exact Option.isSome_iff_exists.mp hrequester

theorem map_filterMap_of_some {α β γ : Type} {f : α → Option β} {g : β → γ} {h : α → γ} {l : List α}
    (hl : ∀ a ∈ l, ∃ b, f a = some b ∧ g b = h a) : (l.filterMap f).map g = l.map h := by
  induction l with
  | nil => rfl
  | cons a rest ih =>
      obtain ⟨b, hb, hg⟩ := hl a List.mem_cons_self
      rw [List.filterMap_cons_some hb, List.map_cons, List.map_cons, hg,
        ih fun a' ha' => hl a' (List.mem_cons_of_mem _ ha')]

variable (orders) in
-- Every friend has a row.
theorem joinedRows_ids (hw : UsersExist w.social) :
    (joinedRows orders w u).map (fun r => r.1.id) = (friends w u).map Prod.fst := by
  refine map_filterMap_of_some fun fr hfr => ?_
  obtain ⟨user, huser⟩ := exists_user_of_friend hw hfr
  have hid := Table.key_of_find? huser
  exact ⟨(friendRow orders w u user, fr.2), by rw [huser]; rfl, hid⟩

variable (orders) in
theorem queryRows_ids (hw : UsersExist w.social) :
    ((queryRows orders w u).map FriendRow.id).Perm ((friends w u).map Prod.fst) := by
  rw [queryRows, List.map_map, ← joinedRows_ids orders hw]
  exact (orders.friends.answers _).perm.map _

theorem mutualQuests_comm (w : World) (u v : Id) : mutualQuests w u v = mutualQuests w v u := by
  unfold mutualQuests
  simp only [Table.count_eq_sum]
  rw [Table.sum_comm]
  refine Table.sum_congr fun theirs _ => Table.sum_congr fun mine _ => ?_
  congr 1
  simp only [eq_iff_iff, decide_eq_true_eq]
  tauto

theorem mutualQuestsCount_of_mem {row : FriendRow} (h : row ∈ queryRows orders w u) :
    row.mutualQuestsCount = mutualQuests w u row.id := by
  obtain ⟨joined, hjoined, rfl⟩ := List.mem_map.mp h
  have hmem := (orders.friends.answers _).perm.subset hjoined
  obtain ⟨fr, _, hfr⟩ := List.mem_filterMap.mp hmem
  obtain ⟨user, _, rfl⟩ := Option.map_eq_some_iff.mp hfr
  rfl

-- The two users of a friendship see each other over it.
theorem otherOf_comm (hne : u ≠ v) (f : Friendship) :
    (acceptedOf u f ∧ otherOf u f = v) ↔ (acceptedOf v f ∧ otherOf v f = u) := by
  simp only [acceptedOf, otherOf, decide_eq_true_eq]
  constructor <;> intro h <;> grind

theorem count_friends_comm (hne : u ≠ v) :
    ((friends w u).map Prod.fst).count v = ((friends w v).map Prod.fst).count u := by
  simp only [friends_ids, List.count, List.countP_map, List.countP_filter]
  refine List.countP_congr fun f _ => ?_
  have hcomm := otherOf_comm hne f.toFriendship
  simp only [Function.comp_apply, Bool.and_eq_true, beq_iff_eq]
  tauto

-- What one of two friends sees of the other.
def shownMutual (orders : FriendOrders) (w : World) (u v : Id) : List ℕ :=
  (((queryRows orders w u).map toSummary).filter fun dto => dto.id = v).map
    FriendSummaryDto.mutualQuestsCount

theorem shownMutual_eq (hw : UsersExist w.social) : shownMutual orders w u v =
    List.replicate (((friends w u).map Prod.fst).count v) (mutualQuests w u v) := by
  refine List.eq_replicate_iff.mpr ⟨?_, fun n hn => ?_⟩
  · have hcount : ((friends w u).map Prod.fst).count v =
        ((queryRows orders w u).map FriendRow.id).count v :=
      (queryRows_ids _ hw).symm.count_eq v
    rw [hcount, shownMutual, List.length_map, List.count, List.countP_map,
      ← List.countP_eq_length_filter, List.countP_map]
    rfl
  · obtain ⟨dto, hdto, rfl⟩ := List.mem_map.mp hn
    obtain ⟨hmem, hid⟩ := List.mem_filter.mp hdto
    obtain ⟨row, hrow, rfl⟩ := List.mem_map.mp hmem
    have hv : row.id = v := of_decide_eq_true hid
    rw [← hv]
    exact mutualQuestsCount_of_mem hrow

theorem mem_acceptedFriendIds (w : World) (u v : Id) :
    v ∈ acceptedFriendIds (w.social.friendships.rows.map DatedFriendship.toFriendship) u ↔
      v ∈ (friends w u).map Prod.fst := by
  rw [acceptedFriendIds, List.mem_eraseDups, friends_ids, List.filter_map, List.map_map]
  rfl

-- The number on the profile is that of the accepted friendships.
theorem friendsCount_of_getStats {categoryName : String → String} {base : SideQuest.World} {u : Id}
    {stats : UsersService.UserStats} (h : UsersService.getStats categoryName base u = .ok stats) :
    stats.friendsCount = base.friendships.count (acceptedOf u) := by
  unfold UsersService.getStats at h
  split at h
  · cases h
  · cases h
    rfl

-- A row for every accepted friendship that `getStats` counts in the same rows, those whom the
-- feed is about, and the same number of shared quests on both sides.
theorem friends_agree (orders orders' : FriendOrders) {w : World} (hw : UsersExist w.social)
    (u : Id) :
    (∀ (categoryName : String → String) (base : SideQuest.World) (stats : UsersService.UserStats),
      base.friendships.rows = w.social.friendships.rows.map DatedFriendship.toFriendship →
        UsersService.getStats categoryName base u = .ok stats →
          ((queryRows orders w u).map toSummary).length = stats.friendsCount) ∧
      (∀ v, v ∈ ((queryRows orders w u).map toSummary).map FriendSummaryDto.id ↔
        v ∈ acceptedFriendIds (w.social.friendships.rows.map DatedFriendship.toFriendship) u) ∧
      ∀ v, v ≠ u → shownMutual orders w u v = shownMutual orders' w v u := by
  have hids := queryRows_ids orders (u := u) hw
  refine ⟨fun categoryName base stats hbase hstats => ?_, fun v => ?_, fun v hne => ?_⟩
  · have hlength := hids.length_eq
    rw [List.length_map] at hlength
    rw [List.length_map, hlength, friends_ids, List.length_map, ← List.countP_eq_length_filter,
      friendsCount_of_getStats hstats, Table.count, hbase, List.countP_map]
    rfl
  · rw [mem_acceptedFriendIds, ← hids.mem_iff, List.map_map]
    rfl
  · rw [shownMutual_eq hw, shownMutual_eq hw, count_friends_comm hne.symm, mutualQuests_comm]

-- What the profile of Ada is made from.
def adaAndBob : SideQuest.World :=
  { SideQuest.World.empty with
    users := Table.empty.insert { id := 1, email := "ada@x", username := "ada", passwordHash := "" }
    friendships := Table.empty.insert
      { id := 1, requesterId := 1, addresseeId := 2, status := .ACCEPTED, createdAt := 0 } }

-- Ada and Bob have completed one quest both.
theorem friends_agree_ada_bob : ∃ stats, UsersService.getStats id adaAndBob 1 = .ok stats ∧
    (((queryRows plainFriendOrders nobodySeen 1).map toSummary).length = stats.friendsCount ∧
      (∀ v, v ∈ ((queryRows plainFriendOrders nobodySeen 1).map toSummary).map FriendSummaryDto.id ↔
        v ∈ acceptedFriendIds
          (nobodySeen.social.friendships.rows.map DatedFriendship.toFriendship) 1) ∧
      ∀ v, v ≠ 1 → shownMutual plainFriendOrders nobodySeen 1 v =
        shownMutual plainFriendOrders nobodySeen v 1) ∧
    stats.friendsCount = 1 ∧ shownMutual plainFriendOrders nobodySeen 1 2 = [1] := by
  have hw : UsersExist nobodySeen.social := by
    intro f hf
    obtain rfl := List.mem_singleton.mp hf
    exact ⟨rfl, rfl⟩
  have hagree := friends_agree plainFriendOrders plainFriendOrders hw 1
  exact ⟨_, rfl, ⟨hagree.1 id adaAndBob _ rfl rfl, hagree.2⟩, rfl, by decide +kernel⟩

end Presence

end SideQuest
