import SideQuest.Lib.Paging

-- A page of rows from several sources, each of which is read in order but only up to a
-- cap.

namespace Paging

variable {α β κ κ' : Type*} [LinearOrder κ] [LinearOrder κ']

-- Some of the rows have been fetched, and before each of the others there are as many of
-- them as the cap.
structure Fetched (key : α → κ) (cap : ℕ) (rows fetched hidden : List α) : Prop where
  perm : (fetched ++ hidden).Perm rows
  covered : ∀ a ∈ hidden, cap ≤ fetched.countP fun b => key b ≤ key a

variable {key : α → κ} {key' : β → κ'} {cap limit : ℕ}
  {rows rows' fetched fetched' hidden hidden' answer merged : List α}

theorem Answers.filterMap {f : α → Option β} (h : Answers key rows answer)
    (hmono : ∀ a b a' b', f a = some a' → f b = some b' → key a ≤ key b → key' a' ≤ key' b') :
    Answers key' (rows.filterMap f) (answer.filterMap f) where
  perm := h.perm.filterMap f
  sorted := by
    refine List.pairwise_filterMap.mpr (h.sorted.imp ?_)
    intro a b hab a' ha' b' hb'
    exact hmono a b a' b' ha' hb' hab

theorem Answers.map {f : α → β} (h : Answers key rows answer)
    (hmono : ∀ a b, key a ≤ key b → key' (f a) ≤ key' (f b)) :
    Answers key' (rows.map f) (answer.map f) where
  perm := h.perm.map f
  sorted := List.pairwise_map.mpr (h.sorted.imp fun hab => hmono _ _ hab)

theorem filterMap_take {f : α → Option β} {l : List α} (h : ∀ a ∈ l, (f a).isSome) (n : ℕ) :
    (l.take n).filterMap f = (l.filterMap f).take n := by
  induction l generalizing n with
  | nil => simp
  | cons a l ih =>
      obtain ⟨b, hb⟩ := Option.isSome_iff_exists.mp (h a List.mem_cons_self)
      cases n with
      | zero => rfl
      | succ n =>
          rw [List.take_succ_cons, List.filterMap_cons_some hb, List.filterMap_cons_some hb,
            List.take_succ_cons, ih fun c hc => h c (List.mem_cons_of_mem a hc)]

theorem Answers.fetched_take (h : Answers key rows answer) (cap : ℕ) :
    Fetched key cap rows (answer.take cap) (answer.drop cap) where
  perm := by
    rw [List.take_append_drop]
    exact h.perm
  covered := by
    intro a ha
    have hsplit := h.sorted
    rw [← List.take_append_drop cap answer] at hsplit
    have hall : ∀ b ∈ answer.take cap, decide (key b ≤ key a) = true := fun b hb =>
      decide_eq_true ((List.pairwise_append.mp hsplit).2.2 b hb a ha)
    have hlt : cap < answer.length := by
      by_contra hge
      rw [List.drop_of_length_le (not_lt.mp hge)] at ha
      cases ha
    rw [List.countP_eq_length.mpr hall, List.length_take_of_le hlt.le]

theorem Fetched.append (h : Fetched key cap rows fetched hidden)
    (h' : Fetched key cap rows' fetched' hidden') :
    Fetched key cap (rows ++ rows') (fetched ++ fetched') (hidden ++ hidden') where
  perm := by
    have hperm := h.perm.append h'.perm
    have hswap : (hidden ++ fetched').Perm (fetched' ++ hidden) := List.perm_append_comm
    have hmiddle := (hswap.append_right hidden').append_left fetched
    simp only [List.append_assoc] at hperm hmiddle ⊢
    exact hmiddle.symm.trans hperm
  covered := by
    intro a ha
    rw [List.countP_append]
    rcases List.mem_append.mp ha with ha | ha
    · exact (h.covered a ha).trans (Nat.le_add_right _ _)
    · exact (h'.covered a ha).trans (Nat.le_add_left _ _)

-- In a sorted list the rows that are smaller than one of them come before it.
theorem countP_lt_le {l : List α} (hsorted : l.Pairwise fun a b => key a ≤ key b) {i : ℕ}
    (hi : i < l.length) {k : κ} (hk : k ≤ key l[i]) : l.countP (fun b => key b < k) ≤ i := by
  have hnone : (l.drop i).countP (fun b => key b < k) = 0 := by
    rw [List.countP_eq_zero]
    intro b hb hlt
    obtain ⟨j, hj, rfl⟩ := List.mem_drop_iff_getElem.mp hb
    have hle : key l[i] ≤ key l[i + j] := by
      rcases Nat.eq_zero_or_pos j with rfl | hpos
      · rfl
      · exact List.pairwise_iff_getElem.mp hsorted _ _ hi (by omega) (by omega)
    exact absurd (of_decide_eq_true hlt) (not_lt.mpr (hk.trans hle))
  rw [← List.take_append_drop i l, List.countP_append, hnone, Nat.add_zero]
  exact List.countP_le_length.trans (List.length_take_le i l)

theorem Fetched.hidden_eq_nil (h : Fetched key cap rows fetched hidden)
    (hlt : fetched.length < cap) : hidden = [] := by
  cases hidden with
  | nil => rfl
  | cons a hidden =>
      have hmany := (h.covered a List.mem_cons_self).trans List.countP_le_length
      omega

-- The first rows of what has been fetched are the first ones of all rows.
theorem Fetched.exists_answers (h : Fetched key cap rows fetched hidden) (hcap : limit ≤ cap)
    (hmerged : Answers key fetched merged) :
    ∃ answer, Answers key rows answer ∧ answer.take limit = merged.take limit := by
  have hfirst : ∀ a ∈ merged.take limit, ∀ b ∈ hidden, key a ≤ key b := by
    intro a ha b hb
    obtain ⟨i, hi, rfl⟩ := List.mem_take_iff_getElem.mp ha
    obtain ⟨hlimit, hlength⟩ := Nat.lt_min.mp hi
    by_contra hlt
    have hbefore := (h.covered b hb).trans
      (List.countP_mono_left fun x _ hx => decide_eq_true
        ((of_decide_eq_true hx).trans_lt (not_le.mp hlt)))
    rw [← hmerged.perm.countP_eq] at hbefore
    have hfew := countP_lt_le hmerged.sorted hlength le_rfl
    omega
  obtain ⟨rest, hrest⟩ := Paging.exists_answers key (merged.drop limit ++ hidden)
  refine ⟨merged.take limit ++ rest, ⟨?_, ?_⟩, ?_⟩
  · refine (hrest.perm.append_left _).trans ?_
    rw [← List.append_assoc, List.take_append_drop]
    exact (hmerged.perm.append_right _).trans h.perm
  · have hsplit := hmerged.sorted
    rw [← List.take_append_drop limit merged] at hsplit
    obtain ⟨hhead, _, hcross⟩ := List.pairwise_append.mp hsplit
    refine List.pairwise_append.mpr ⟨hhead, hrest.sorted, ?_⟩
    intro a ha b hb
    rcases List.mem_append.mp (hrest.perm.mem_iff.mp hb) with hb | hb
    · exact hcross a ha b hb
    · exact hfirst a ha b hb
  · rcases Nat.lt_or_ge merged.length limit with hshort | hlong
    · have hhidden : hidden = [] := by
        refine h.hidden_eq_nil ?_
        rw [← hmerged.length_eq]
        exact hshort.trans_le hcap
      have hdrop : merged.drop limit = [] := List.drop_of_length_le hshort.le
      rw [hhidden, hdrop] at hrest
      rw [hrest.perm.eq_nil, List.append_nil, List.take_take, Nat.min_self]
    · rw [List.take_append_of_le_length (List.length_take_of_le hlong).ge, List.take_take,
        Nat.min_self]

theorem Fetched.lt_length_iff (h : Fetched key cap rows fetched hidden) (hcap : limit < cap) :
    limit < fetched.length ↔ limit < rows.length := by
  have hlength := h.perm.length_eq
  rw [List.length_append] at hlength
  constructor
  · intro hlt
    omega
  · intro hlt
    by_contra hfew
    rw [h.hidden_eq_nil (by omega), List.length_nil] at hlength
    omega

end Paging
