import SideQuest.Lib.Paging

-- A list that is cut after its first rows, where the database chooses the order of the
-- rows, or of those with equal keys.

namespace Paging

variable {α κ : Type*} [LinearOrder κ]

-- Rows in any order at all.
section Unordered

-- Whoever comes closer than a row of the part is in the part too.
def TakesCloser (dist : α → κ) (near : α → Prop) (rows part : List α) : Prop :=
  ∀ y ∈ part, near y → ∀ x ∈ rows, dist x < dist y → x ∈ part

variable {dist : α → κ} {near : α → Prop} {rows : List α} {limit : ℕ} {x y : α}

-- Two of too many rows: one comes first, and the other one is cut off.
theorem exists_perm_cut (hnodup : rows.Nodup) (hlimit : 0 < limit) (hmany : limit < rows.length)
    (hx : x ∈ rows) (hy : y ∈ rows) (hne : x ≠ y) :
    ∃ answer : List α, answer.Perm rows ∧ y ∈ answer.take limit ∧ x ∉ answer.take limit := by
  classical
  have hy' : y ∈ rows.erase x := (List.mem_erase_of_ne hne.symm).mpr hy
  have hperm : (y :: (rows.erase x).erase y ++ [x]).Perm rows := by
    refine List.perm_append_comm.trans ?_
    exact ((List.perm_cons_erase hy').symm.cons x).trans (List.perm_cons_erase hx).symm
  have hlength : limit ≤ (y :: (rows.erase x).erase y).length := by
    have hwhole := hperm.length_eq
    rw [List.length_append, List.length_singleton] at hwhole
    omega
  refine ⟨_, hperm, ?_, fun hmem => ?_⟩
  · rw [List.cons_append, List.take_cons hlimit]
    exact List.mem_cons_self
  · rw [List.take_append_of_le_length hlength] at hmem
    have hdisjoint := List.disjoint_of_nodup_append (hperm.nodup_iff.mpr hnodup)
    exact hdisjoint (List.mem_of_mem_take hmem) List.mem_cons_self

-- Cut off in any order, the rows are the closest ones exactly if all fit, or if none is
-- closer than a near one.
theorem forall_takesCloser_iff (hnodup : rows.Nodup) (hlimit : 0 < limit) :
    (∀ answer : List α, answer.Perm rows → TakesCloser dist near rows (answer.take limit)) ↔
      rows.length ≤ limit ∨ ∀ x ∈ rows, ∀ y ∈ rows, near y → dist y ≤ dist x := by
  constructor
  · intro hall
    by_contra hcon
    push Not at hcon
    obtain ⟨hmany, x, hx, y, hy, hnear, hlt⟩ := hcon
    obtain ⟨answer, hperm, htaken, hcut⟩ :=
      exists_perm_cut hnodup hlimit hmany hx hy fun he => (he ▸ hlt).false
    exact hcut (hall answer hperm y htaken hnear x hx hlt)
  · rintro (hfew | hequal) answer hperm y hy hnear x hx hlt
    · rw [List.take_of_length_le (hperm.length_eq.trans_le hfew)]
      exact hperm.mem_iff.mpr hx
    · have hy' : y ∈ rows := hperm.mem_iff.mp (List.mem_of_mem_take hy)
      exact absurd hlt (not_lt.mpr (hequal x hx y hy' hnear))

end Unordered

-- Rows by a key that several may share.
section Ties

variable {key : α → κ} {rows answer answer' : List α} {limit i : ℕ} {v : α}

theorem mem_take_iff {l : List α} : v ∈ l.take limit ↔ ∃ i < limit, l[i]? = some v := by
  simp only [List.mem_iff_getElem?, List.getElem?_take, Option.ite_none_right_eq_some]

theorem mem_drop_iff {l : List α} : v ∈ l.drop limit ↔ ∃ i, l[limit + i]? = some v := by
  simp only [List.mem_iff_getElem?, List.getElem?_drop]

theorem Answers.nodup (h : Answers key rows answer) (hnodup : rows.Nodup) : answer.Nodup :=
  h.perm.nodup_iff.mpr hnodup

-- Where its key stands a row may stand.
theorem exists_answers_at (hnodup : rows.Nodup) (hv : v ∈ rows)
    (hkey : (sortedKeys key rows)[i]? = some (key v)) :
    ∃ answer, Answers key rows answer ∧ answer[i]? = some v := by
  classical
  obtain ⟨answer, h⟩ := exists_answers key rows
  rw [← h.map_key, List.getElem?_map] at hkey
  obtain ⟨r, hr, hsame⟩ := Option.map_eq_some_iff.mp hkey
  have hr' : r ∈ rows := h.perm.mem_iff.mp (List.mem_of_getElem? hr)
  refine ⟨_, h.swap hnodup hr' hv hsame, ?_⟩
  rw [List.getElem?_map, hr, Option.map_some, Equiv.swap_apply_left]

-- No two answers disagree on which side of the cut a row is, exactly if its key stands on
-- one side only.
theorem forall_same_side_iff (hnodup : rows.Nodup) (hv : v ∈ rows) :
    (∀ answer answer' : List α, Answers key rows answer → Answers key rows answer' →
      v ∈ answer.take limit → v ∈ answer'.take limit) ↔
      ¬(key v ∈ (sortedKeys key rows).take limit ∧ key v ∈ (sortedKeys key rows).drop limit) := by
  constructor
  · rintro hall ⟨hbefore, hbehind⟩
    obtain ⟨i, hi, hkey⟩ := mem_take_iff.mp hbefore
    obtain ⟨j, hkey'⟩ := mem_drop_iff.mp hbehind
    obtain ⟨answer, h, hat⟩ := exists_answers_at hnodup hv hkey
    obtain ⟨answer', h', hat'⟩ := exists_answers_at hnodup hv hkey'
    have htaken := hall answer answer' h h' (mem_take_iff.mpr ⟨i, hi, hat⟩)
    exact List.disjoint_take_drop (h'.nodup hnodup) le_rfl htaken (mem_drop_iff.mpr ⟨j, hat'⟩)
  · intro hside answer answer' h h' htaken
    by_contra hcut
    have hdropped : v ∈ answer'.drop limit := by
      have hmem : v ∈ answer'.take limit ++ answer'.drop limit := by
        rw [List.take_append_drop]
        exact h'.perm.mem_iff.mpr hv
      exact (List.mem_append.mp hmem).resolve_left hcut
    refine hside ⟨?_, ?_⟩
    · rw [← h.map_key, ← List.map_take]
      exact List.mem_map_of_mem htaken
    · rw [← h'.map_key, ← List.map_drop]
      exact List.mem_map_of_mem hdropped

end Ties

end Paging
