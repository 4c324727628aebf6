import SideQuest.Model.Quests
import SideQuest.Model.Schedules
import Mathlib.Data.Finset.Card

-- The streak of one user, as completions and rollovers move it. Times are milliseconds.

namespace SideQuest

open QuestsService StreakRolloverService

def utcDay (t : ℤ) : ℤ := t / MS_PER_DAY

-- What a rollover at `now` takes for stale lies before this.
def staleBefore (now : ℤ) : ℤ := startOfUtcDay now - MS_PER_DAY

theorem staleBefore_le_iff {t now : ℤ} : staleBefore now ≤ t ↔ utcDay now ≤ utcDay t + 1 := by
  simp only [staleBefore, startOfUtcDay, utcDay, MS_PER_DAY]
  omega

theorem utcDay_mono {t t' : ℤ} (h : t ≤ t') : utcDay t ≤ utcDay t' := by
  simp only [utcDay, MS_PER_DAY]
  omega

structure Streak where
  days : ℕ
  longest : ℕ
  last : Option ℤ
  deriving DecidableEq

namespace Streak

-- Of a user who has completed nothing.
def new : Streak := ⟨0, 0, none⟩

def complete (s : Streak) (now : ℤ) : Streak :=
  ⟨computeStreak s.days s.last now, max s.longest (computeStreak s.days s.last now), some now⟩

def rollover (s : Streak) (now : ℤ) : Streak :=
  if s.days > 0 ∧ s.last.all fun lastAt => lastAt < staleBefore now then { s with days := 0 } else s

inductive Event where
  | completed (time : ℤ)
  | rollover (time : ℤ)
  deriving DecidableEq

def Event.time : Event → ℤ
  | .completed t => t
  | .rollover t => t

def Event.IsRollover : Event → Prop
  | .completed _ => False
  | .rollover _ => True

def step (s : Streak) : Event → Streak
  | .completed t => s.complete t
  | .rollover t => s.rollover t

def run (s : Streak) (events : List Event) : Streak := events.foldl step s

-- The events of a run, in the order of their times.
def InOrder (events : List Event) : Prop := events.Pairwise fun e e' => e.time ≤ e'.time

variable {s : Streak} {t now : ℤ} {events : List Event}

@[simp] theorem run_nil : s.run [] = s := rfl

@[simp] theorem run_cons (e : Event) : s.run (e :: events) = (s.step e).run events := rfl

theorem run_append (events' : List Event) : s.run (events ++ events') = (s.run events).run events' :=
  List.foldl_append

theorem run_concat (e : Event) : s.run (events ++ [e]) = (s.run events).step e := run_append _

-- The three cases of a later completion.
theorem days_complete (h : s.last = some t) : (s.complete now).days =
    if now - t ≤ 36 * 3600000 then s.days else if now - t ≤ 48 * 3600000 then s.days + 1 else 1 := by
  simp only [complete, computeStreak, h]
  norm_num [STREAK_WINDOW_HOURS, STREAK_RESET_HOURS]

theorem days_complete_first (h : s.last = none) : (s.complete now).days = max 1 s.days := by
  simp only [complete, computeStreak, h]
  split <;> omega

theorem days_le_longest_complete : (s.complete now).days ≤ (s.complete now).longest :=
  le_max_right _ _

theorem last_rollover : (s.rollover now).last = s.last := by
  unfold rollover
  split <;> rfl

theorem longest_rollover : (s.rollover now).longest = s.longest := by
  unfold rollover
  split <;> rfl

theorem days_rollover_le : (s.rollover now).days ≤ s.days := by
  unfold rollover
  split
  · exact Nat.zero_le _
  · exact Nat.le_refl _

-- A rollover leaves a completion on its day or on the day before alone.
theorem rollover_of_recent (h : s.last = some t) (hnow : staleBefore now ≤ t) :
    s.rollover now = s := by
  rw [rollover, if_neg]
  simp [h, hnow]

theorem days_rollover_of_stale (h : s.last = some t) (hnow : t < staleBefore now) :
    (s.rollover now).days = 0 := by
  unfold rollover
  split
  · rfl
  · rename_i hkept
    simpa [h, hnow] using hkept

-- Rollovers do not move the last completion.
theorem last_run_rollovers (h : ∀ e ∈ events, e.IsRollover) : (s.run events).last = s.last := by
  induction events generalizing s with
  | nil => rfl
  | cons e rest ih =>
      obtain ⟨he, hrest⟩ := List.forall_mem_cons.mp h
      cases e with
      | completed t => exact he.elim
      | rollover t => rw [run_cons, ih hrest, step, last_rollover]

theorem run_rollovers_of_recent (h : s.last = some t) (hrollovers : ∀ e ∈ events, e.IsRollover)
    (hrecent : ∀ e ∈ events, staleBefore e.time ≤ t) : s.run events = s := by
  induction events with
  | nil => rfl
  | cons e rest ih =>
      obtain ⟨he, hrest⟩ := List.forall_mem_cons.mp hrollovers
      obtain ⟨hnow, hlater⟩ := List.forall_mem_cons.mp hrecent
      cases e with
      | completed t' => exact he.elim
      | rollover t' =>
          have hstep : s.rollover t' = s := rollover_of_recent h hnow
          rw [run_cons, step, hstep, ih hrest hlater]

theorem days_run_rollovers_le (hrollovers : ∀ e ∈ events, e.IsRollover) :
    (s.run events).days ≤ s.days := by
  induction events generalizing s with
  | nil => exact Nat.le_refl _
  | cons e rest ih =>
      obtain ⟨he, hrest⟩ := List.forall_mem_cons.mp hrollovers
      cases e with
      | completed t => exact he.elim
      | rollover t => exact (ih hrest).trans days_rollover_le

-- One stale rollover is enough.
theorem days_run_rollovers_of_stale (h : s.last = some t) (hrollovers : ∀ e ∈ events, e.IsRollover)
    {r : ℤ} (hmem : .rollover r ∈ events) (hstale : t < staleBefore r) :
    (s.run events).days = 0 := by
  obtain ⟨before, after, rfl⟩ := List.append_of_mem hmem
  have hbefore := last_run_rollovers (s := s) fun e he => hrollovers e (List.mem_append_left _ he)
  have hzero := days_rollover_of_stale (hbefore.trans h) hstale
  have hle := days_run_rollovers_le (s := (s.run before).rollover r) fun e he =>
    hrollovers e (List.mem_append_right _ (List.mem_cons_of_mem _ he))
  rw [run_append, run_cons, step]
  omega

-- Completions on two days in a row: the later one adds a day exactly if it comes more
-- than 36 hours after the earlier one, whatever rollovers run between them.
theorem days_grow_iff {t' : ℤ} (hrollovers : ∀ e ∈ events, e.IsRollover)
    (hbefore : ∀ e ∈ events, e.time ≤ t) (hday : utcDay t = utcDay t' + 1) :
    (((s.complete t').run events).complete t).days = (s.complete t').days + 1 ↔
      36 * 3600000 < t - t' := by
  have hlast : (s.complete t').last = some t' := rfl
  have hsame : (s.complete t').run events = s.complete t' := by
    apply run_rollovers_of_recent hlast hrollovers
    intro e he
    rw [staleBefore_le_iff, ← hday]
    exact utcDay_mono (hbefore e he)
  have hgap : t - t' < 48 * 3600000 := by
    simp only [utcDay, MS_PER_DAY] at hday
    omega
  rw [hsame, days_complete hlast]
  split
  · omega
  · rw [if_pos hgap.le]
    omega

end Streak

end SideQuest
