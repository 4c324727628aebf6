import Mathlib.Algebra.BigOperators.Group.List.Basic
import Mathlib.Algebra.Order.BigOperators.Group.List
import Mathlib.Data.List.Nodup
import Mathlib.Tactic.Abel

-- A table with a primary key: a list of rows, in insertion order, no two of which
-- share a key. Every operation keeps the key unique, so no caller proves it again.
structure Table {α κ : Type} (key : α → κ) where
  rows : List α
  nodup : (rows.map key).Nodup

namespace Table

variable {α κ γ : Type} {key : α → κ}

@[ext] theorem ext {t t' : Table key} (h : t.rows = t'.rows) : t = t' := by
  cases t; cases t'; cases h; rfl

def empty : Table key := ⟨[], by simp⟩

section Keyed

variable [DecidableEq κ]

def find? (t : Table key) (k : κ) : Option α := t.rows.find? fun a => key a = k

-- A row whose key is taken is not inserted; callers check the key first.
def insert (t : Table key) (a : α) : Table key :=
  if h : key a ∈ t.rows.map key then t else
    ⟨t.rows ++ [a], by
      rw [List.map_append, List.map_singleton]
      exact List.Nodup.append t.nodup (List.nodup_singleton _) (by simpa using h)⟩

def modify (t : Table key) (k : κ) (f : α → α) (hf : ∀ a, key (f a) = key a) : Table key :=
  ⟨t.rows.map fun a => if key a = k then f a else a, by
    have hkey : (key ∘ fun a => if key a = k then f a else a) = key := by
      funext a
      by_cases h : key a = k <;> simp [h, hf]
    rw [List.map_map, hkey]
    exact t.nodup⟩

def erase (t : Table key) (k : κ) : Table key :=
  ⟨t.rows.filter fun a => key a ≠ k, t.nodup.sublist (List.filter_sublist.map key)⟩

def filter (t : Table key) (p : α → Bool) : Table key :=
  ⟨t.rows.filter p, t.nodup.sublist (List.filter_sublist.map key)⟩

theorem find?_eq_some_iff {t : Table key} {k : κ} {a : α} :
    t.find? k = some a ↔ a ∈ t.rows ∧ key a = k := by
  constructor
  · intro h
    exact ⟨List.mem_of_find?_eq_some h, by simpa using List.find?_some h⟩
  · rintro ⟨hmem, rfl⟩
    obtain ⟨b, hb⟩ : ∃ b, t.find? (key a) = some b :=
      Option.isSome_iff_exists.mp (List.find?_isSome.mpr ⟨a, hmem, by simp⟩)
    have hkey : key b = key a := by simpa using List.find?_some hb
    rwa [List.inj_on_of_nodup_map t.nodup (List.mem_of_find?_eq_some hb) hmem hkey] at hb

theorem find?_eq_none_iff {t : Table key} {k : κ} :
    t.find? k = none ↔ ∀ a ∈ t.rows, key a ≠ k := by
  simp [find?, List.find?_eq_none]

theorem mem_of_find? {t : Table key} {k : κ} {a : α} (h : t.find? k = some a) : a ∈ t.rows :=
  (find?_eq_some_iff.mp h).1

theorem key_of_find? {t : Table key} {k : κ} {a : α} (h : t.find? k = some a) : key a = k :=
  (find?_eq_some_iff.mp h).2

theorem find?_of_mem {t : Table key} {a : α} (h : a ∈ t.rows) : t.find? (key a) = some a :=
  find?_eq_some_iff.mpr ⟨h, rfl⟩

theorem notMem_keys_iff {t : Table key} {k : κ} : k ∉ t.rows.map key ↔ t.find? k = none := by
  rw [find?_eq_none_iff]
  simp

theorem rows_insert {t : Table key} {a : α} (h : t.find? (key a) = none) :
    (t.insert a).rows = t.rows ++ [a] := by
  simp [insert, notMem_keys_iff.mpr h]

theorem mem_of_mem_insert {t : Table key} {a b : α} (h : b ∈ (t.insert a).rows) :
    b ∈ t.rows ∨ b = a := by
  unfold insert at h
  split at h
  · exact Or.inl h
  · exact (List.mem_append.mp h).imp id List.mem_singleton.mp

theorem find?_insert {t : Table key} {a : α} (h : t.find? (key a) = none) (k : κ) :
    (t.insert a).find? k = if key a = k then some a else t.find? k := by
  simp only [find?, rows_insert h, List.find?_append, List.find?_cons, List.find?_nil]
  by_cases hk : key a = k
  · subst hk
    simp only [find?] at h
    simp [h]
  · simp [hk]

-- Without the freshness hypothesis: the other keys are untouched either way.
theorem find?_insert_ne (t : Table key) {a : α} {k : κ} (hk : key a ≠ k) :
    (t.insert a).find? k = t.find? k := by
  cases h : t.find? (key a) with
  | none => rw [find?_insert h, if_neg hk]
  | some b =>
      have hmem : key a ∈ t.rows.map key := by
        by_contra hn
        rw [notMem_keys_iff.mp hn] at h
        cases h
      simp [insert, hmem]

-- A row that is there stays, whatever is inserted.
theorem find?_insert_of_some {t : Table key} {k : κ} {b : α} (h : t.find? k = some b) (a : α) :
    (t.insert a).find? k = some b := by
  by_cases hk : key a = k
  · have hmem : key a ∈ t.rows.map key := by
      rw [hk, ← key_of_find? h]
      exact List.mem_map_of_mem (mem_of_find? h)
    rw [insert, dif_pos hmem]
    exact h
  · rw [find?_insert_ne t hk, h]

theorem find?_insert_cases (t : Table key) (a : α) (k : κ) : (t.insert a).find? k = t.find? k ∨
    key a = k ∧ t.find? k = none ∧ (t.insert a).find? k = some a := by
  cases hfound : t.find? k with
  | some b => exact Or.inl (find?_insert_of_some hfound a)
  | none =>
      by_cases hk : key a = k
      · subst hk
        exact Or.inr ⟨rfl, rfl, (find?_insert hfound (key a)).trans (if_pos rfl)⟩
      · exact Or.inl ((find?_insert_ne t hk).trans hfound)

@[simp] theorem rows_modify (t : Table key) (k : κ) (f : α → α) (hf : ∀ a, key (f a) = key a) :
    (t.modify k f hf).rows = t.rows.map fun a => if key a = k then f a else a := rfl

theorem find?_modify (t : Table key) (k : κ) (f : α → α) (hf : ∀ a, key (f a) = key a) (k' : κ) :
    (t.modify k f hf).find? k' = if k' = k then (t.find? k').map f else t.find? k' := by
  simp only [find?, rows_modify]
  induction t.rows with
  | nil => simp
  | cons a rest ih =>
      simp only [List.map_cons, List.find?_cons]
      by_cases hk : key a = k
      · by_cases hk' : key a = k'
        · have heq : k' = k := hk'.symm.trans hk
          simp [hf, hk, heq]
        · have hne : ¬k = k' := fun h => hk' (hk.trans h)
          simp [hf, hk, hne, ih]
      · by_cases hk' : key a = k'
        · have hne : k' ≠ k := fun h => hk (hk'.trans h)
          simp [hk', hne]
        · simp [hk, hk', ih]

@[simp] theorem find?_modify_self (t : Table key) (k : κ) (f : α → α)
    (hf : ∀ a, key (f a) = key a) : (t.modify k f hf).find? k = (t.find? k).map f := by
  rw [find?_modify, if_pos rfl]

theorem find?_modify_ne (t : Table key) {k k' : κ} (f : α → α) (hf : ∀ a, key (f a) = key a)
    (hk : k' ≠ k) : (t.modify k f hf).find? k' = t.find? k' := by
  rw [find?_modify, if_neg hk]

theorem find?_erase (t : Table key) (k k' : κ) :
    (t.erase k).find? k' = if k' = k then none else t.find? k' := by
  by_cases hk : k' = k
  · subst hk
    rw [if_pos rfl, find?_eq_none_iff]
    intro a ha
    simpa [erase] using (List.mem_filter.mp ha).2
  · rw [if_neg hk]
    simp only [find?, erase, List.find?_filter]
    congr 1
    funext a
    by_cases ha : key a = k'
    · simp [ha, hk]
    · simp [ha]

-- A secondary lookup sees the same key after an update that keeps its column.
theorem map_key_find?_modify (t : Table key) (k : κ) (f : α → α) (hf : ∀ a, key (f a) = key a)
    (p : α → Bool) (hp : ∀ a, p (f a) = p a) :
    ((t.modify k f hf).rows.find? p).map key = (t.rows.find? p).map key := by
  rw [rows_modify]
  induction t.rows with
  | nil => rfl
  | cons a rest ih =>
      have hpa : p (if key a = k then f a else a) = p a := by
        by_cases h : key a = k <;> simp [h, hp]
      have hka : key (if key a = k then f a else a) = key a := by
        by_cases h : key a = k <;> simp [h, hf]
      cases h : p a with
      | true => simp [hpa, h, hka]
      | false => simpa [List.find?_cons, hpa, h] using ih

end Keyed

section Aggregates

variable {M : Type} [AddCommMonoid M]

def sum (t : Table key) (f : α → M) : M := (t.rows.map f).sum

def count (t : Table key) (p : α → Bool) : ℕ := t.rows.countP p

theorem count_eq_sum (t : Table key) (p : α → Bool) :
    t.count p = t.sum fun a => if p a then 1 else 0 := by
  unfold count sum
  induction t.rows with
  | nil => rfl
  | cons a rest ih => rw [List.countP_cons, ih, List.map_cons, List.sum_cons, Nat.add_comm]

theorem sum_congr {t : Table key} {f g : α → M} (h : ∀ a ∈ t.rows, f a = g a) :
    t.sum f = t.sum g := by
  unfold sum
  rw [List.map_congr_left h]

theorem sum_eq_zero {t : Table key} {f : α → M} (h : ∀ a ∈ t.rows, f a = 0) : t.sum f = 0 := by
  rw [sum_congr h]
  simp [sum]

-- The rows that are left out have no share.
theorem sum_filter (t : Table key) (p : α → Bool) (f : α → M) :
    ((t.rows.filter p).map f).sum = t.sum fun a => if p a then f a else 0 := by
  unfold sum
  induction t.rows with
  | nil => rfl
  | cons a rest ih =>
      by_cases ha : p a = true
      · rw [List.filter_cons_of_pos ha, List.map_cons, List.sum_cons, ih, List.map_cons,
          List.sum_cons, if_pos ha]
      · rw [List.filter_cons_of_neg ha, ih, List.map_cons, List.sum_cons, if_neg ha, zero_add]

theorem sum_add (t : Table key) (f g : α → M) :
    t.sum (fun a => f a + g a) = t.sum f + t.sum g := by
  unfold sum
  exact List.sum_map_add

theorem sum_comm {β κ' : Type} {key' : β → κ'} (t : Table key) (t' : Table key') (f : α → β → M) :
    (t.sum fun a => t'.sum (f a)) = t'.sum fun b => t.sum fun a => f a b := by
  unfold sum
  induction t.rows with
  | nil => simp
  | cons a rest ih => simp only [List.map_cons, List.sum_cons, ih, List.sum_map_add]

variable [DecidableEq κ]

theorem sum_insert {t : Table key} {a : α} (h : t.find? (key a) = none) (f : α → M) :
    (t.insert a).sum f = t.sum f + f a := by
  simp [sum, rows_insert h]

-- The row with a key, between rows with other keys.
theorem exists_split {t : Table key} {k : κ} {a : α} (h : t.find? k = some a) :
    ∃ before after, t.rows = before ++ a :: after ∧
      (∀ b ∈ before, key b ≠ k) ∧ ∀ b ∈ after, key b ≠ k := by
  obtain ⟨before, after, hrows⟩ := List.append_of_mem (mem_of_find? h)
  have hnodup := t.nodup
  rw [hrows, List.map_append, List.map_cons, List.nodup_middle, List.nodup_cons, ← List.map_append,
    key_of_find? h] at hnodup
  have hother {b : α} (hb : b ∈ before ++ after) : key b ≠ k := fun hk =>
    hnodup.1 (hk ▸ List.mem_map_of_mem hb)
  exact ⟨before, after, hrows, fun b hb => hother (List.mem_append_left _ hb),
    fun b hb => hother (List.mem_append_right _ hb)⟩

-- The new total and the old row's share make the old total and the new row's share.
theorem sum_modify {t : Table key} {k : κ} {a : α} (h : t.find? k = some a) (g : α → α)
    (hg : ∀ a, key (g a) = key a) (f : α → M) :
    (t.modify k g hg).sum f + f a = t.sum f + f (g a) := by
  obtain ⟨before, after, hrows, hbefore, hafter⟩ := exists_split h
  have hkeep {l : List α} (hl : ∀ b ∈ l, key b ≠ k) :
      l.map (fun b => if key b = k then g b else b) = l := by
    conv_rhs => rw [← List.map_id l]
    exact List.map_congr_left fun b hb => if_neg (hl b hb)
  rw [sum, sum, rows_modify, hrows, List.map_append, List.map_cons, hkeep hbefore, hkeep hafter,
    if_pos (key_of_find? h)]
  simp only [List.map_append, List.map_cons, List.sum_append, List.sum_cons]
  abel

-- A row without a share gets one.
theorem sum_modify_of_zero {t : Table key} {k : κ} {a : α} (h : t.find? k = some a) (g : α → α)
    (hg : ∀ a, key (g a) = key a) {f : α → M} (hzero : f a = 0) :
    (t.modify k g hg).sum f = t.sum f + f (g a) := by
  have hsum := sum_modify h g hg f
  rwa [hzero, add_zero] at hsum

-- An update that keeps a row's share keeps the total.
theorem sum_modify_of_eq (t : Table key) (k : κ) (g : α → α) (hg : ∀ a, key (g a) = key a)
    (f : α → M) (hf : ∀ a, t.find? k = some a → f (g a) = f a) :
    (t.modify k g hg).sum f = t.sum f := by
  unfold sum
  rw [rows_modify, List.map_map]
  congr 1
  apply List.map_congr_left
  intro a ha
  by_cases hk : key a = k
  · simp [hk, hf a (find?_eq_some_iff.mpr ⟨ha, hk⟩)]
  · simp [hk]

-- An update that raises no row's share does not raise the total.
theorem sum_modify_le [PartialOrder M] [AddLeftMono M] (t : Table key) (k : κ) (g : α → α)
    (hg : ∀ a, key (g a) = key a) {f : α → M} (hf : ∀ a ∈ t.rows, f (g a) ≤ f a) :
    (t.modify k g hg).sum f ≤ t.sum f := by
  unfold sum
  rw [rows_modify, List.map_map]
  apply List.sum_le_sum
  intro a ha
  by_cases hk : key a = k
  · simp [hk, hf a ha]
  · simp [hk]

-- Only the row with the key has a share.
theorem sum_single (t : Table key) (k : κ) (f : α → M) :
    (t.sum fun a => if key a = k then f a else 0) = (t.find? k).elim 0 f := by
  cases h : t.find? k with
  | none =>
      exact sum_eq_zero fun a ha => if_neg (find?_eq_none_iff.mp h a ha)
  | some a =>
      obtain ⟨before, after, hrows, hbefore, hafter⟩ := exists_split h
      have hzero {l : List α} (hl : ∀ b ∈ l, key b ≠ k) :
          (l.map fun b => if key b = k then f b else 0).sum = 0 := by
        rw [List.map_congr_left fun b hb => if_neg (hl b hb)]
        simp
      rw [sum, hrows, List.map_append, List.map_cons, List.sum_append, List.sum_cons, hzero hbefore,
        hzero hafter, if_pos (key_of_find? h), zero_add, add_zero]
      rfl

-- The erased row's share is what is missing.
theorem sum_erase {t : Table key} {k : κ} {a : α} (h : t.find? k = some a) (f : α → M) :
    (t.erase k).sum f + f a = t.sum f := by
  obtain ⟨before, after, hrows, hbefore, hafter⟩ := exists_split h
  have hkeep {l : List α} (hl : ∀ b ∈ l, key b ≠ k) : l.filter (fun b => key b ≠ k) = l :=
    List.filter_eq_self.mpr fun b hb => decide_eq_true (hl b hb)
  have hrest : (t.erase k).rows = before ++ after := by
    show t.rows.filter (fun b => key b ≠ k) = before ++ after
    rw [hrows, List.filter_append, List.filter_cons_of_neg (by simp [key_of_find? h]), hkeep hbefore,
      hkeep hafter]
  rw [sum, sum, hrest, hrows]
  simp only [List.map_append, List.map_cons, List.sum_append, List.sum_cons]
  abel

theorem count_insert {t : Table key} {a : α} (h : t.find? (key a) = none) (p : α → Bool) :
    (t.insert a).count p = t.count p + if p a then 1 else 0 := by
  rw [count_eq_sum, count_eq_sum, sum_insert h]

theorem count_insert_le (t : Table key) {a : α} {p : α → Bool} (ha : p a = false) :
    (t.insert a).count p ≤ t.count p := by
  cases hfound : t.find? (key a) with
  | some b =>
      have hmem : key a ∈ t.rows.map key := by
        by_contra hnone
        rw [notMem_keys_iff.mp hnone] at hfound
        cases hfound
      rw [insert, dif_pos hmem]
  | none => rw [count_insert hfound, ha, if_neg Bool.false_ne_true, Nat.add_zero]

theorem count_erase_le (t : Table key) (k : κ) (p : α → Bool) : (t.erase k).count p ≤ t.count p :=
  List.filter_sublist.countP_le

-- An update makes no row count that did not.
theorem count_modify_le (t : Table key) (k : κ) (g : α → α) (hg : ∀ a, key (g a) = key a)
    {p : α → Bool} (hp : ∀ a, p (g a) = true → p a = true) :
    (t.modify k g hg).count p ≤ t.count p := by
  unfold count
  rw [rows_modify, List.countP_map]
  refine List.countP_mono_left fun a _ ha => ?_
  by_cases hk : key a = k
  · rw [Function.comp_apply, if_pos hk] at ha
    exact hp a ha
  · rwa [Function.comp_apply, if_neg hk] at ha

end Aggregates

end Table
