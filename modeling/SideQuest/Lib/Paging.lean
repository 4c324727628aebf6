import Mathlib.Data.List.Sort
import Mathlib.Data.List.Nodup
import Mathlib.Data.List.Flatten
import Mathlib.Logic.Equiv.Basic

-- Lists that are read page by page from a database which may order rows with equal keys
-- as it likes, differently at each query.

namespace Paging

variable {α κ : Type*}

-- No key stands on both sides of the end of a page.
def BreaksClean (limit : ℕ) (keys : List κ) : Prop :=
  ∀ k, List.Disjoint (keys.take (k * limit)) (keys.drop (k * limit))

theorem breaksClean_of_nodup (limit : ℕ) {keys : List κ} (h : keys.Nodup) :
    BreaksClean limit keys := fun _ => List.disjoint_take_drop h le_rfl

theorem BreaksClean.drop {limit : ℕ} {keys : List κ} (h : BreaksClean limit keys) :
    BreaksClean limit (keys.drop limit) := by
  intro k
  have hnext := h (k + 1)
  rw [Nat.succ_mul, Nat.add_comm, List.take_add, ← List.drop_drop] at hnext
  exact fun x hx hx' => hnext (List.mem_append_right _ hx) hx'

theorem BreaksClean.of_drop {limit : ℕ} {keys : List κ}
    (hcut : List.Disjoint (keys.take limit) (keys.drop limit))
    (h : BreaksClean limit (keys.drop limit)) : BreaksClean limit keys := by
  intro k x hbefore hafter
  cases k with
  | zero =>
      rw [Nat.zero_mul, List.take_zero] at hbefore
      cases hbefore
  | succ k =>
      rw [Nat.succ_mul, Nat.add_comm, List.take_add] at hbefore
      rw [Nat.succ_mul, Nat.add_comm, ← List.drop_drop] at hafter
      rcases List.mem_append.mp hbefore with hfirst | hlater
      · exact hcut hfirst (List.mem_of_mem_drop hafter)
      · exact h k hlater hafter

theorem breaksClean_iff {limit : ℕ} {keys : List κ} : BreaksClean limit keys ↔
    List.Disjoint (keys.take limit) (keys.drop limit) ∧ BreaksClean limit (keys.drop limit) := by
  refine ⟨fun h => ⟨?_, h.drop⟩, fun h => .of_drop h.1 h.2⟩
  have hfirst := h 1
  rwa [Nat.one_mul] at hfirst

theorem breaksClean_of_length_le {limit : ℕ} {keys : List κ} (h : keys.length ≤ limit) :
    BreaksClean limit keys := by
  rw [breaksClean_iff, List.drop_of_length_le h]
  exact ⟨List.disjoint_nil_right _, breaksClean_of_nodup limit List.nodup_nil⟩

variable [LinearOrder κ]

-- A list that the database may return for these rows.
structure Answers (key : α → κ) (rows answer : List α) : Prop where
  perm : answer.Perm rows
  sorted : answer.Pairwise fun a b => key a ≤ key b

def sortedKeys (key : α → κ) (rows : List α) : List κ := (rows.map key).insertionSort (· ≤ ·)

section Answers

variable {key : α → κ} {rows answer answer' : List α} {limit : ℕ}

theorem Answers.map_key (h : Answers key rows answer) : answer.map key = sortedKeys key rows := by
  have hperm : (answer.map key).Perm (sortedKeys key rows) :=
    (h.perm.map key).trans (List.perm_insertionSort _ _).symm
  have hsorted : (answer.map key).Pairwise (· ≤ ·) := List.pairwise_map.mpr h.sorted
  exact hperm.eq_of_pairwise' hsorted (List.pairwise_insertionSort _ _)

theorem Answers.length_eq (h : Answers key rows answer) : answer.length = rows.length :=
  h.perm.length_eq

theorem Answers.of_map_key (h : Answers key rows answer) (hperm : answer'.Perm answer)
    (hkey : answer'.map key = answer.map key) : Answers key rows answer' where
  perm := hperm.trans h.perm
  sorted := by
    have hsorted : (answer.map key).Pairwise (· ≤ ·) := List.pairwise_map.mpr h.sorted
    rw [← hkey] at hsorted
    exact List.pairwise_map.mp hsorted

-- What comes first in an answer is least.
theorem Answers.head?_le {key : α → κ} {rows answer : List α} (h : Answers key rows answer) {a : α}
    (ha : answer.head? = some a) : a ∈ rows ∧ ∀ b ∈ rows, key a ≤ key b := by
  obtain ⟨rest, rfl⟩ := List.head?_eq_some_iff.mp ha
  have hsorted := List.pairwise_cons.mp h.sorted
  refine ⟨h.perm.subset List.mem_cons_self, fun b hb => ?_⟩
  rcases List.mem_cons.mp (h.perm.symm.subset hb) with rfl | hlater
  · exact le_rfl
  · exact hsorted.1 b hlater

-- Where no two rows tie there is one answer.
theorem Answers.unique (h : Answers key rows answer) (h' : Answers key rows answer')
    (hkeys : ∀ a ∈ rows, ∀ b ∈ rows, key a = key b → a = b) : answer = answer' := by
  refine (h.perm.trans h'.perm.symm).eq_of_pairwise (fun a b ha hb hle hle' => ?_) h.sorted h'.sorted
  exact hkeys a (h.perm.subset ha) b (h'.perm.subset hb) (le_antisymm hle hle')

theorem answers_insertionSort (key : α → κ) (rows : List α) :
    Answers key rows (rows.insertionSort fun a b => key a ≤ key b) := by
  have htotal : Std.Total fun a b : α => key a ≤ key b := ⟨fun _ _ => le_total _ _⟩
  have htrans : IsTrans α fun a b => key a ≤ key b := ⟨fun _ _ _ => le_trans⟩
  exact ⟨List.perm_insertionSort _ _, List.pairwise_insertionSort _ _⟩

theorem exists_answers (key : α → κ) (rows : List α) : ∃ answer, Answers key rows answer :=
  ⟨_, answers_insertionSort key rows⟩

-- Up to a clean cut all answers have the same rows.
theorem Answers.take_perm (h : Answers key rows answer) (h' : Answers key rows answer') {b : ℕ}
    (hcut : List.Disjoint ((sortedKeys key rows).take b) ((sortedKeys key rows).drop b)) :
    (answer.take b).Perm (answer'.take b) := by
  let before (a : α) : Bool := key a ∈ (sortedKeys key rows).take b
  have htake {l : List α} (hl : Answers key rows l) : l.filter before = l.take b := by
    have hhead : (l.take b).filter before = l.take b := by
      rw [List.filter_eq_self]
      intro a ha
      refine decide_eq_true ?_
      rw [← hl.map_key, ← List.map_take]
      exact List.mem_map_of_mem ha
    have htail : (l.drop b).filter before = [] := by
      rw [List.filter_eq_nil_iff]
      intro a ha hbefore
      refine hcut (of_decide_eq_true hbefore) ?_
      rw [← hl.map_key, ← List.map_drop]
      exact List.mem_map_of_mem ha
    conv_lhs => rw [← List.take_append_drop b l]
    rw [List.filter_append, hhead, htail, List.append_nil]
  rw [← htake h, ← htake h']
  exact (h.perm.trans h'.perm.symm).filter before

end Answers

-- Pages by their number, from 0 on.
section Offset

variable {key : α → κ} {rows answer answer' : List α} {limit : ℕ}

def page (limit p : ℕ) (l : List α) : List α := (l.drop (p * limit)).take limit

-- The first pages, each of the list that its query has returned.
def firstPages (limit : ℕ) (answers : ℕ → List α) (n : ℕ) : List α :=
  (List.range n).flatMap fun p => page limit p (answers p)

theorem firstPages_succ (limit : ℕ) (answers : ℕ → List α) (n : ℕ) :
    firstPages limit answers (n + 1) = firstPages limit answers n ++ page limit n (answers n) := by
  rw [firstPages, List.range_succ, List.flatMap_append, List.flatMap_singleton]
  rfl

theorem take_succ_page (limit n : ℕ) (l : List α) :
    l.take ((n + 1) * limit) = l.take (n * limit) ++ page limit n l := by
  rw [Nat.succ_mul, List.take_add]
  rfl

theorem perm_firstPages {answers : ℕ → List α} (hclean : BreaksClean limit (sortedKeys key rows))
    (hanswers : ∀ p, Answers key rows (answers p)) (h : Answers key rows answer) (n : ℕ) :
    (firstPages limit answers n).Perm (answer.take (n * limit)) := by
  induction n generalizing answer with
  | zero => simp [firstPages]
  | succ n ih =>
      have hbefore : (firstPages limit answers n).Perm ((answers n).take (n * limit)) :=
        ih (hanswers n)
      have htake := (hanswers n).take_perm h (hclean (n + 1))
      rw [take_succ_page] at htake
      rw [firstPages_succ]
      exact (hbefore.append_right _).trans htake

-- The pages of one answer up to a page, and of another one from there on.
theorem firstPages_switch (limit k n : ℕ) (answer answer' : List α) :
    firstPages limit (fun p => if p < k then answer else answer') (k + n) =
      answer.take (k * limit) ++ (answer'.drop (k * limit)).take (n * limit) := by
  have hfirst (m : ℕ) (hm : m ≤ k) :
      firstPages limit (fun p => if p < k then answer else answer') m = answer.take (m * limit) := by
    induction m with
    | zero => simp [firstPages]
    | succ m ih => rw [firstPages_succ, ih (Nat.le_of_succ_le hm), if_pos (Nat.lt_of_succ_le hm),
        take_succ_page]
  induction n with
  | zero =>
      rw [Nat.add_zero, Nat.zero_mul, List.take_zero, List.append_nil]
      exact hfirst k le_rfl
  | succ n ih =>
      rw [← Nat.add_assoc, firstPages_succ, ih, if_neg (Nat.not_lt.mpr (Nat.le_add_right k n)),
        Nat.succ_mul, List.take_add, List.append_assoc, List.drop_drop, ← Nat.add_mul]
      rfl

-- Rows with the same key may trade places.
theorem Answers.swap [DecidableEq α] (h : Answers key rows answer) (hnodup : rows.Nodup) {r r' : α}
    (hr : r ∈ rows) (hr' : r' ∈ rows) (hkey : key r = key r') :
    Answers key rows (answer.map (Equiv.swap r r')) := by
  have hnodup' : answer.Nodup := h.perm.nodup_iff.mpr hnodup
  have hkeep (a : α) (ha : a ∈ answer) : Equiv.swap r r' a ∈ answer := by
    rw [Equiv.swap_apply_def]
    split
    · exact h.perm.mem_iff.mpr hr'
    · split
      · exact h.perm.mem_iff.mpr hr
      · exact ha
  refine h.of_map_key ?_ ?_
  · rw [List.perm_ext_iff_of_nodup (hnodup'.map (Equiv.swap r r').injective) hnodup']
    intro a
    constructor
    · intro ha
      obtain ⟨b, hb, rfl⟩ := List.mem_map.mp ha
      exact hkeep b hb
    · intro ha
      exact List.mem_map.mpr ⟨_, hkeep a ha, Equiv.swap_apply_self r r' a⟩
  · rw [List.map_map]
    refine List.map_congr_left fun a _ => ?_
    rw [Function.comp_apply, Equiv.swap_apply_def]
    split
    · rename_i ha
      rw [ha, hkey]
    · split
      · rename_i ha
        rw [ha, hkey]
      · rfl

-- The row that comes before the end of a page in one answer comes after it in the other.
theorem Answers.mem_drop_swap [DecidableEq α] (h : Answers key rows answer) {k m : ℕ}
    (hn : rows.length ≤ (k + m) * limit) {r r' : α} (hr' : r' ∈ answer.drop (k * limit)) :
    r ∈ ((answer.map (Equiv.swap r r')).drop (k * limit)).take (m * limit) := by
  rw [List.take_of_length_le, ← List.map_drop]
  · exact List.mem_map.mpr ⟨r', hr', Equiv.swap_apply_right r r'⟩
  · rw [List.length_drop, List.length_map, h.length_eq, Nat.sub_le_iff_le_add', ← Nat.add_mul]
    exact hn

theorem Answers.le_of_mem_drop (h : Answers key rows answer) {k n : ℕ}
    (hn : rows.length ≤ n * limit) {r : α} (hr : r ∈ answer.drop (k * limit)) : k ≤ n := by
  have hlt : k * limit < answer.length := by
    by_contra hge
    rw [List.drop_of_length_le (not_lt.mp hge)] at hr
    cases hr
  rw [h.length_eq] at hlt
  exact Nat.le_of_lt (Nat.lt_of_mul_lt_mul_right (hlt.trans_le hn))

-- The pages hold every row once, whatever the queries return, exactly if every page
-- ends cleanly.
theorem forall_firstPages_perm_iff (hnodup : rows.Nodup) {n : ℕ}
    (hn : rows.length ≤ n * limit) :
    (∀ answers : ℕ → List α, (∀ p, Answers key rows (answers p)) →
      (firstPages limit answers n).Perm rows) ↔ BreaksClean limit (sortedKeys key rows) := by
  classical
  constructor
  · intro hall k x hbefore hafter
    obtain ⟨answer, h⟩ := exists_answers key rows
    rw [← h.map_key, ← List.map_take] at hbefore
    rw [← h.map_key, ← List.map_drop] at hafter
    obtain ⟨r, hr, hkey⟩ := List.mem_map.mp hbefore
    obtain ⟨r', hr', hkey'⟩ := List.mem_map.mp hafter
    have hrow {a : α} (ha : a ∈ answer) : a ∈ rows := h.perm.mem_iff.mp ha
    have hswap := h.swap hnodup (hrow (List.mem_of_mem_take hr)) (hrow (List.mem_of_mem_drop hr'))
      (hkey.trans hkey'.symm)
    have hpages := hall (fun p => if p < k then answer else answer.map (Equiv.swap r r')) fun p => by
      split
      · exact h
      · exact hswap
    obtain ⟨m, rfl⟩ := Nat.exists_eq_add_of_le (h.le_of_mem_drop hn hr')
    rw [firstPages_switch] at hpages
    -- the row is on a page before the boundary and on one after it
    have hdisjoint := List.disjoint_of_nodup_append (hpages.nodup_iff.mpr hnodup)
    exact hdisjoint hr (h.mem_drop_swap hn hr')
  · intro hclean answers hanswers
    obtain ⟨answer, h⟩ := exists_answers key rows
    have hpages := perm_firstPages hclean hanswers h n
    rw [List.take_of_length_le (h.length_eq.trans_le hn)] at hpages
    exact hpages.trans h.perm

theorem nodup_sortedKeys (h : (rows.map key).Nodup) : (sortedKeys key rows).Nodup :=
  (List.perm_insertionSort _ _).nodup_iff.mpr h

end Offset

-- Pages that go on behind the key of the last row.
section Cursor

-- A page of what is left, and then what is left behind it.
inductive CursorWalk (key : α → κ) (limit : ℕ) : List α → List α → Prop
  | last {rows answer : List α} :
      Answers key rows answer → rows.length ≤ limit → CursorWalk key limit rows answer
  | next {rows answer rest : List α} {last : α} :
      Answers key rows answer → limit < rows.length → answer[limit - 1]? = some last →
        CursorWalk key limit (rows.filter fun a => key last < key a) rest →
          CursorWalk key limit rows (answer.take limit ++ rest)

variable {key : α → κ} {rows answer items : List α} {limit : ℕ} {last : α}

-- The rows of a page come before what is left behind it.
theorem Answers.le_last (h : Answers key rows answer) (hlast : answer[limit - 1]? = some last)
    (hlimit : 0 < limit) : (∀ a ∈ answer.take limit, key a ≤ key last) ∧
      ∀ a ∈ answer.drop limit, key last ≤ key a := by
  obtain ⟨hlt, rfl⟩ := List.getElem?_eq_some_iff.mp hlast
  have hsorted := List.pairwise_iff_getElem.mp h.sorted
  constructor
  · intro a ha
    obtain ⟨i, hi, rfl⟩ := List.mem_take_iff_getElem.mp ha
    rcases Nat.lt_or_eq_of_le (Nat.le_sub_one_of_lt (Nat.lt_min.mp hi).1) with hbefore | hsame
    · exact hsorted _ _ (Nat.lt_min.mp hi).2 hlt hbefore
    · simp only [hsame, le_refl]
  · intro a ha
    obtain ⟨i, hi, rfl⟩ := List.mem_drop_iff_getElem.mp ha
    exact hsorted _ _ hlt _ (by omega)

-- What is left behind a page is there after it.
theorem Answers.filter_last (h : Answers key rows answer) (hlast : answer[limit - 1]? = some last)
    (hlimit : 0 < limit) : (rows.filter fun a => key last < key a).Perm
      ((answer.drop limit).filter fun a => key last < key a) := by
  obtain ⟨hle, _⟩ := h.le_last hlast hlimit
  have hnone : (answer.take limit).filter (fun a => key last < key a) = [] := by
    rw [List.filter_eq_nil_iff]
    exact fun a ha hlt => absurd (of_decide_eq_true hlt) (not_lt.mpr (hle a ha))
  have hfilter := h.perm.symm.filter fun a => key last < key a
  conv_rhs at hfilter => rw [← List.take_append_drop limit answer]
  rwa [List.filter_append, hnone, List.nil_append] at hfilter

theorem mem_take_last (hlast : answer[limit - 1]? = some last) (hlimit : 0 < limit) :
    last ∈ answer.take limit := by
  have htake : (answer.take limit)[limit - 1]? = some last := by
    rw [List.getElem?_take_of_lt (Nat.sub_one_lt_of_lt hlimit), hlast]
  exact List.mem_of_getElem? htake

-- A page ends cleanly if its last row comes before all that are not on it.
theorem Answers.disjoint_iff (h : Answers key rows answer) (hlast : answer[limit - 1]? = some last)
    (hlimit : 0 < limit) :
    List.Disjoint ((sortedKeys key rows).take limit) ((sortedKeys key rows).drop limit) ↔
      ∀ a ∈ answer.drop limit, key last < key a := by
  obtain ⟨hbefore, hbehind⟩ := h.le_last hlast hlimit
  rw [← h.map_key, ← List.map_take, ← List.map_drop]
  constructor
  · intro hcut a ha
    refine lt_of_le_of_ne (hbehind a ha) fun hsame => ?_
    have hpage : key last ∈ (answer.take limit).map key :=
      List.mem_map_of_mem (mem_take_last hlast hlimit)
    exact hcut hpage (hsame ▸ List.mem_map_of_mem ha)
  · intro hclean x hx hx'
    obtain ⟨a, ha, rfl⟩ := List.mem_map.mp hx
    obtain ⟨b, hb, hsame⟩ := List.mem_map.mp hx'
    have hlt := (hbefore a ha).trans_lt (hclean b hb)
    rw [hsame] at hlt
    exact lt_irrefl _ hlt

-- Behind a clean end of a page all that is not on it is left.
theorem Answers.behind (h : Answers key rows answer) (hlast : answer[limit - 1]? = some last)
    (hlimit : 0 < limit) (hclean : ∀ a ∈ answer.drop limit, key last < key a) :
    Answers key (rows.filter fun a => key last < key a) (answer.drop limit) := by
  refine ⟨?_, h.sorted.sublist (List.drop_sublist _ _)⟩
  have hfilter := h.filter_last hlast hlimit
  rw [List.filter_eq_self.mpr fun a ha => decide_eq_true (hclean a ha)] at hfilter
  exact hfilter.symm

theorem Answers.sortedKeys_behind (h : Answers key rows answer)
    (hlast : answer[limit - 1]? = some last) (hlimit : 0 < limit)
    (hclean : ∀ a ∈ answer.drop limit, key last < key a) :
    sortedKeys key (rows.filter fun a => key last < key a) = (sortedKeys key rows).drop limit := by
  rw [← (h.behind hlast hlimit hclean).map_key, ← h.map_key, List.map_drop]

theorem CursorWalk.subperm (hlimit : 0 < limit) (h : CursorWalk key limit rows items) :
    items.Subperm rows := by
  induction h with
  | last hanswers _ => exact hanswers.perm.subperm
  | @next rows answer rest last hanswers _ hlast _ ih =>
      have hleft : rest.Subperm (answer.drop limit) :=
        ih.trans ((hanswers.filter_last hlast hlimit).subperm.trans List.filter_sublist.subperm)
      have hwhole := (List.subperm_append_left (answer.take limit)).mpr hleft
      rw [List.take_append_drop] at hwhole
      exact hwhole.trans hanswers.perm.subperm

theorem CursorWalk.sorted (hlimit : 0 < limit) (h : CursorWalk key limit rows items) :
    items.Pairwise fun a b => key a ≤ key b := by
  induction h with
  | last hanswers _ => exact hanswers.sorted
  | @next rows answer rest last hanswers _ hlast hrest ih =>
      refine List.pairwise_append.mpr ⟨hanswers.sorted.sublist (List.take_sublist _ _), ih, ?_⟩
      intro a ha b hb
      have hbehind := List.mem_filter.mp ((hrest.subperm hlimit).subset hb)
      exact ((hanswers.le_last hlast hlimit).1 a ha).trans (of_decide_eq_true hbehind.2).le

-- The walk holds every row once exactly if every page ends cleanly.
theorem CursorWalk.perm_iff (hlimit : 0 < limit) (h : CursorWalk key limit rows items) :
    items.Perm rows ↔ BreaksClean limit (sortedKeys key rows) := by
  induction h with
  | @last rows answer hanswers hle =>
      refine iff_of_true hanswers.perm (breaksClean_of_length_le ?_)
      rw [← hanswers.map_key, List.length_map, hanswers.length_eq]
      exact hle
  | @next rows answer rest last hanswers hlt hlast hrest ih =>
      rw [breaksClean_iff, hanswers.disjoint_iff hlast hlimit]
      constructor
      · intro hperm
        have hsub := (hrest.subperm hlimit).length_le
        have hfilter := (hanswers.filter_last hlast hlimit).length_eq
        have hfew := List.length_filter_le (fun a => decide (key last < key a)) (answer.drop limit)
        have hdrop : (answer.drop limit).length = rows.length - limit := by
          rw [List.length_drop, hanswers.length_eq]
        have hlength := hperm.length_eq
        rw [List.length_append, List.length_take, hanswers.length_eq, Nat.min_eq_left hlt.le]
          at hlength
        -- the rest is as long as it can be, so nothing behind the page is lost
        have hall : ((answer.drop limit).filter fun a => key last < key a).length =
            (answer.drop limit).length := by omega
        have hclean : ∀ a ∈ answer.drop limit, key last < key a := fun a ha =>
          of_decide_eq_true (List.length_filter_eq_length_iff.mp hall a ha)
        rw [← hanswers.sortedKeys_behind hlast hlimit hclean]
        exact ⟨hclean, ih.mp ((hrest.subperm hlimit).perm_of_length_le (by omega))⟩
      · rintro ⟨hclean, hbreaks⟩
        rw [← hanswers.sortedKeys_behind hlast hlimit hclean] at hbreaks
        have hwhole := ((ih.mpr hbreaks).trans (hanswers.behind hlast hlimit hclean).perm.symm)
        refine (hwhole.append_left _).trans ?_
        rw [List.take_append_drop]
        exact hanswers.perm

end Cursor

end Paging
