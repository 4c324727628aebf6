import SideQuest.Streaks.Counter

-- What a streak can be after any run of completions and rollovers.

namespace SideQuest

namespace Streak

open StreakRolloverService

variable {events : List Event}

-- Between two completions within 36 hours no rollover finds the first of them stale.
def KeptWarm (events : List Event) : Prop :=
  ∀ before t between t' after r, events = before ++ .completed t :: between ++ .completed t' :: after →
    (∀ e ∈ between, e.IsRollover) → .rollover r ∈ between → t' - t ≤ 36 * 3600000 →
      staleBefore r ≤ t

theorem KeptWarm.of_append {events' : List Event} (h : KeptWarm (events ++ events')) :
    KeptWarm events := by
  intro before t between t' after r heq
  exact h before t between t' (after ++ events') r (by simp [heq])

-- The last completion, after which only rollovers came; a streak that is at zero was
-- reset by one of them.
structure LastCompletion (events : List Event) (s : Streak) (t : ℤ) : Prop where
  last : s.last = some t
  split : ∃ before between, events = before ++ .completed t :: between ∧
    (∀ e ∈ between, e.IsRollover) ∧ (s.days = 0 → ∃ r, .rollover r ∈ between ∧ t < staleBefore r)

-- A new user has completed nothing, or his last completion counts.
def Counting (events : List Event) (s : Streak) : Prop :=
  s = new ∧ (∀ e ∈ events, e.IsRollover) ∨ ∃ t, LastCompletion events s t

theorem days_complete_pos {s : Streak} {now : ℤ} (h : Counting events s)
    (hwarm : KeptWarm (events ++ [.completed now])) : 1 ≤ (s.complete now).days := by
  rcases h with ⟨rfl, _⟩ | ⟨t, hlast, before, between, heq, hrollovers, hzero⟩
  · exact Nat.le_refl 1
  · rw [days_complete hlast]
    split
    · rename_i hgap
      by_contra hn
      obtain ⟨r, hmem, hstale⟩ := hzero (by omega)
      have hkept := hwarm before t between now [] r (by rw [heq]) hrollovers hmem hgap
      omega
    · split <;> omega

theorem Counting.step {s : Streak} {e : Event} (h : Counting events s)
    (hwarm : KeptWarm (events ++ [e])) : Counting (events ++ [e]) (s.step e) := by
  cases e with
  | completed now =>
      have hpos := days_complete_pos h hwarm
      refine Or.inr ⟨now, rfl, events, [], rfl, by simp, fun hz => ?_⟩
      rw [Streak.step] at hz
      omega
  | rollover now =>
      rcases h with ⟨rfl, hnone⟩ | ⟨t, hlast, before, between, heq, hrollovers, hzero⟩
      · refine Or.inl ⟨rfl, ?_⟩
        rw [List.forall_mem_append]
        exact ⟨hnone, by simp [Event.IsRollover]⟩
      · refine Or.inr ⟨t, last_rollover.trans hlast, before, between ++ [.rollover now], ?_, ?_, ?_⟩
        · rw [heq, List.append_assoc, List.cons_append]
        · rw [List.forall_mem_append]
          exact ⟨hrollovers, by simp [Event.IsRollover]⟩
        · intro hz
          by_cases hrecent : staleBefore now ≤ t
          · rw [Streak.step, rollover_of_recent hlast hrecent] at hz
            obtain ⟨r, hmem, hstale⟩ := hzero hz
            exact ⟨r, List.mem_append_left _ hmem, hstale⟩
          · exact ⟨now, by simp, by omega⟩

theorem counting_run (hwarm : KeptWarm events) : Counting events (new.run events) := by
  induction events using List.reverseRecOn with
  | nil => exact Or.inl ⟨rfl, by simp⟩
  | append_singleton events e ih =>
      rw [run_concat]
      exact (ih hwarm.of_append).step hwarm

-- Every completion leaves at least one day and no more than the longest streak.
def Counted (events : List Event) : Prop :=
  ∀ before now, before ++ [.completed now] <+: events →
    1 ≤ (new.run (before ++ [.completed now])).days ∧
      (new.run (before ++ [.completed now])).days ≤ (new.run (before ++ [.completed now])).longest

theorem counted_iff_keptWarm : Counted events ↔ KeptWarm events := by
  constructor
  · intro h before t between t' after r heq hrollovers hmem hgap
    by_contra hstale
    have hprefix : before ++ .completed t :: between ++ [.completed t'] <+: events :=
      ⟨after, by simp [heq]⟩
    have hpos := (h _ t' hprefix).1
    have hlast : ((new.run before).complete t).last = some t := rfl
    have hzero := days_run_rollovers_of_stale hlast hrollovers hmem (by omega)
    have hlast' := (last_run_rollovers hrollovers).trans hlast
    rw [run_concat, run_append, run_cons] at hpos
    simp only [Streak.step] at hpos
    rw [days_complete hlast', if_pos hgap, hzero] at hpos
    omega
  · intro hwarm before now hprefix
    obtain ⟨after, heq⟩ := hprefix
    have hkept : KeptWarm (before ++ [.completed now]) := (heq ▸ hwarm).of_append
    rw [run_concat]
    exact ⟨days_complete_pos (counting_run hkept.of_append) hkept, days_le_longest_complete⟩

def Event.day : Event → Option ℤ
  | .completed t => some (utcDay t)
  | .rollover _ => none

-- The days on which something was completed.
def completionDays (events : List Event) : Finset ℤ := (events.filterMap Event.day).toFinset

@[simp] theorem completionDays_completed (now : ℤ) :
    completionDays (events ++ [.completed now]) = insert (utcDay now) (completionDays events) := by
  ext d
  simp [completionDays, Event.day]

@[simp] theorem completionDays_rollover (now : ℤ) :
    completionDays (events ++ [.rollover now]) = completionDays events := by
  ext d
  simp [completionDays, Event.day]

-- The last completion is on the latest of the days.
structure WithinDays (events : List Event) (s : Streak) : Prop where
  days_le : s.days ≤ (completionDays events).card
  longest_le : s.longest ≤ (completionDays events).card
  first : s.last = none → completionDays events = ∅
  last : ∀ t, s.last = some t → .completed t ∈ events ∧
    ∀ d ∈ completionDays events, d ≤ utcDay t

theorem WithinDays.complete {s : Streak} {now : ℤ} (h : WithinDays events s)
    (hnow : ∀ e ∈ events, e.time ≤ now) :
    WithinDays (events ++ [.completed now]) (s.complete now) := by
  have hgrow : (completionDays events).card ≤
      (completionDays (events ++ [.completed now])).card := by
    rw [completionDays_completed]
    exact Finset.card_le_card (Finset.subset_insert _ _)
  have hdays : (s.complete now).days ≤ (completionDays (events ++ [.completed now])).card := by
    rw [completionDays_completed] at hgrow ⊢
    have hpos : 1 ≤ (insert (utcDay now) (completionDays events)).card :=
      Finset.card_pos.mpr (Finset.insert_nonempty _ _)
    cases hlast : s.last with
    | none =>
        have hzero := h.days_le
        rw [h.first hlast, Finset.card_empty] at hzero
        rw [days_complete_first hlast]
        omega
    | some t =>
        obtain ⟨hmem, hlatest⟩ := h.last t hlast
        rw [days_complete hlast]
        split
        · exact h.days_le.trans hgrow
        · rename_i hgap
          split
          · -- 36 hours after the last completion it is another day
            have hnew : utcDay now ∉ completionDays events := by
              intro hd
              have hle := hlatest _ hd
              have hge := utcDay_mono (hnow _ hmem)
              simp only [utcDay, StreakRolloverService.MS_PER_DAY, Event.time] at hle hge
              omega
            rw [Finset.card_insert_of_notMem hnew]
            exact Nat.succ_le_succ h.days_le
          · exact hpos
  refine ⟨hdays, max_le (h.longest_le.trans hgrow) hdays, (fun hn => by cases hn), fun t ht => ?_⟩
  cases ht
  refine ⟨by simp, fun d hd => ?_⟩
  rw [completionDays_completed, Finset.mem_insert] at hd
  rcases hd with rfl | hd
  · exact le_rfl
  · obtain ⟨e, he, hday⟩ := List.mem_filterMap.mp (List.mem_toFinset.mp hd)
    cases e with
    | completed t =>
        cases hday
        exact utcDay_mono (hnow _ he)
    | rollover t => cases hday

theorem WithinDays.rollover {s : Streak} {now : ℤ} (h : WithinDays events s) :
    WithinDays (events ++ [.rollover now]) (s.rollover now) where
  days_le := by
    rw [completionDays_rollover]
    exact days_rollover_le.trans h.days_le
  longest_le := by
    rw [completionDays_rollover, longest_rollover]
    exact h.longest_le
  first hn := by
    rw [completionDays_rollover]
    exact h.first (last_rollover ▸ hn)
  last t ht := by
    obtain ⟨hmem, hlatest⟩ := h.last t (last_rollover ▸ ht)
    rw [completionDays_rollover]
    exact ⟨List.mem_append_left _ hmem, hlatest⟩

theorem withinDays_run (horder : InOrder events) : WithinDays events (new.run events) := by
  induction events using List.reverseRecOn with
  | nil => exact ⟨Nat.le_refl 0, Nat.le_refl 0, fun _ => rfl, fun t ht => by cases ht⟩
  | append_singleton events e ih =>
      rw [InOrder, List.pairwise_append] at horder
      obtain ⟨hevents, _, hlast⟩ := horder
      rw [run_concat]
      cases e with
      | completed now =>
          have hnow : ∀ e ∈ events, e.time ≤ now := fun e he =>
            hlast e he (.completed now) List.mem_cons_self
          exact (ih hevents).complete hnow
      | rollover now => exact (ih hevents).rollover

-- After a completion the last one is not earlier.
theorem last_run_ge {s : Streak} {t : ℤ} (hlast : ∃ t', s.last = some t' ∧ t ≤ t')
    (hevents : ∀ e ∈ events, t ≤ e.time) : ∃ t', (s.run events).last = some t' ∧ t ≤ t' := by
  induction events generalizing s with
  | nil => exact hlast
  | cons e rest ih =>
      obtain ⟨he, hrest⟩ := List.forall_mem_cons.mp hevents
      rw [run_cons]
      apply ih _ hrest
      cases e with
      | completed now => exact ⟨now, rfl, he⟩
      | rollover now =>
          rw [step, last_rollover]
          exact hlast

theorem completed_of_days_lt {s : Streak} {e : Event} (h : s.days < (s.step e).days) :
    e = .completed e.time := by
  cases e with
  | completed now => rfl
  | rollover now => exact absurd h (Nat.not_lt_of_le days_rollover_le)

-- Two events that make the streak longer are on different days.
theorem utcDay_ne_of_days_lt {s : Streak} {e e' : Event} {between : List Event}
    (hbetween : ∀ e₁ ∈ between, e.time ≤ e₁.time) (hfirst : s.days < (s.step e).days)
    (hsecond : ((s.step e).run between).days < (((s.step e).run between).step e').days) :
    utcDay e.time ≠ utcDay e'.time := by
  have hlast : ∃ t', (s.step e).last = some t' ∧ e.time ≤ t' := by
    rw [completed_of_days_lt hfirst]
    exact ⟨e.time, rfl, le_rfl⟩
  obtain ⟨t', ht', hle⟩ := last_run_ge hlast hbetween
  intro hday
  rw [completed_of_days_lt hsecond, step, days_complete ht'] at hsecond
  simp only [utcDay, StreakRolloverService.MS_PER_DAY] at hday
  split at hsecond
  · omega
  · omega

end Streak

end SideQuest
