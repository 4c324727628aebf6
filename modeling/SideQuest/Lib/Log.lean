import Mathlib.Data.List.Infix
import Mathlib.Algebra.BigOperators.Group.List.Basic
import Mathlib.Algebra.Order.Monoid.Defs

-- Counting the entries of a log that only grows at its end.

namespace Log

variable {α : Type} (opens closes : α → Bool)

-- Two closing entries always have an opening one between them.
def OncePer (log : List α) : Prop :=
  ∀ stretch, stretch <:+: log → (∀ e ∈ stretch, opens e = false) → stretch.countP closes ≤ 1

-- Something has closed since the last opening entry.
def Spent (log : List α) : Prop :=
  ∃ stretch, stretch <:+ log ∧ (∀ e ∈ stretch, opens e = false) ∧ 0 < stretch.countP closes

variable {opens closes} {log : List α} {e : α}

theorem oncePer_nil : OncePer opens closes [] := by
  intro stretch hs _
  rw [List.infix_nil.mp hs]
  exact Nat.zero_le _

theorem not_spent_nil : ¬Spent opens closes [] := by
  rintro ⟨stretch, hs, _, hc⟩
  rw [List.suffix_nil.mp hs] at hc
  exact absurd hc (Nat.lt_irrefl 0)

-- A new entry matters to the stretches that end with it.
theorem oncePer_concat (h : OncePer opens closes log)
    (hlast : opens e = false → closes e = true → ¬Spent opens closes log) :
    OncePer opens closes (log ++ [e]) := by
  intro stretch hs hopen
  rcases List.infix_concat_iff.mp hs with hs | hs
  · rcases List.suffix_concat_iff.mp hs with rfl | ⟨before, rfl, hbefore⟩
    · exact Nat.zero_le _
    · have hb : ∀ e ∈ before, opens e = false := fun e he =>
        hopen e (List.mem_append_left _ he)
      have he : opens e = false := hopen e (by simp)
      rw [List.countP_append, List.countP_singleton]
      split
      · rename_i hc
        have hnone : ¬0 < before.countP closes := fun hpos =>
          hlast he hc ⟨before, hbefore, hb, hpos⟩
        omega
      · have hold := h before hbefore.isInfix hb
        omega
  · exact h stretch hs hopen

theorem spent_concat (h : Spent opens closes (log ++ [e])) :
    opens e = false ∧ (closes e = true ∨ Spent opens closes log) := by
  obtain ⟨stretch, hs, hopen, hpos⟩ := h
  rcases List.suffix_concat_iff.mp hs with rfl | ⟨before, rfl, hbefore⟩
  · exact absurd hpos (Nat.lt_irrefl 0)
  · refine ⟨hopen e (by simp), ?_⟩
    rw [List.countP_append, List.countP_singleton] at hpos
    by_cases hc : closes e = true
    · exact Or.inl hc
    · rw [if_neg hc, Nat.add_zero] at hpos
      exact Or.inr ⟨before, hbefore, fun e he => hopen e (List.mem_append_left _ he), hpos⟩

section Own

variable {β : Type}

-- When each thread has at least as many entries of one kind as of another, so has the log.
theorem countP_le_of_own {p q : Nat × β → Bool} {log : List (Nat × β)}
    (h : ∀ i, (log.filter fun e => e.1 = i).countP p ≤ (log.filter fun e => e.1 = i).countP q) :
    log.countP p ≤ log.countP q := by
  induction hlength : log.length using Nat.strong_induction_on generalizing log with
  | _ n ih =>
      cases log with
      | nil => exact Nat.le_refl _
      | cons e rest =>
          rw [List.countP_eq_countP_filter_add _ p fun e' => decide (e'.1 = e.1),
            List.countP_eq_countP_filter_add _ q fun e' => decide (e'.1 = e.1)]
          apply Nat.add_le_add (h e.1)
          have hdrop : (e :: rest).filter (fun e' => !decide (e'.1 = e.1)) =
              rest.filter fun e' => !decide (e'.1 = e.1) := by simp
          rw [hdrop]
          refine ih _ ?_ (fun i => ?_) rfl
          · have hle := List.length_filter_le (fun e' => !decide (e'.1 = e.1)) rest
            rw [List.length_cons] at hlength
            omega
          · rw [List.filter_filter]
            by_cases hi : i = e.1
            · have hempty : rest.filter (fun e' => decide (e'.1 = i) && !decide (e'.1 = e.1)) = [] := by
                simp [hi]
              rw [hempty]
              exact Nat.le_refl _
            · have hsame : rest.filter (fun e' => decide (e'.1 = i) && !decide (e'.1 = e.1)) =
                  (e :: rest).filter fun e' => decide (e'.1 = i) := by
                rw [List.filter_cons_of_neg (by simpa using Ne.symm hi)]
                apply List.filter_congr
                intro e' _
                by_cases he' : e'.1 = i <;> simp [he', hi]
              rw [hsame]
              exact h i

end Own

end Log
