import SideQuest.Streaks.Requests
import SideQuest.Streaks.Bounds

-- What the streaks of the users are worth: when they grow from one day to the next, when
-- a completion counts, and that they never exceed the days on which quests were completed.

namespace SideQuest

open ReadCommitted QuestsService

def World.streakDaysOf (w : World) (userId : Id) : ℕ :=
  (w.users.find? userId).elim 0 User.streakDays

def World.longestStreakDaysOf (w : World) (userId : Id) : ℕ :=
  (w.users.find? userId).elim 0 User.longestStreakDays

theorem streakDaysOf_eq {w : World} {userId : Id} {s : Streak} (h : w.streakOf userId = some s) :
    w.streakDaysOf userId = s.days ∧ w.longestStreakDaysOf userId = s.longest := by
  obtain ⟨user, hfound, rfl⟩ := Option.map_eq_some_iff.mp h
  rw [World.streakDaysOf, World.longestStreakDaysOf, hfound]
  exact ⟨rfl, rfl⟩

variable {host : Host} {userId : Id} {w : World} {s : Streak} {calls : List StreakCall}

theorem streakDaysOf_oneByOne (host : Host) (hs : w.streakOf userId = some s) (calls : List StreakCall) :
    (oneByOne (StreakCall.after host) calls w).streakDaysOf userId =
        (s.run (eventsOf host userId calls w)).days ∧
      (oneByOne (StreakCall.after host) calls w).longestStreakDaysOf userId =
        (s.run (eventsOf host userId calls w)).longest := by
  apply streakDaysOf_eq
  rw [streakOf_oneByOne, hs, Option.map_some]

theorem events_of_completes {call : StreakCall} (h : call.completes host userId w = true) :
    call.events host userId w = [.completed w.clock] := if_pos h

-- Two completions of the user, none between them, on two days in a row.
structure InARow (host : Host) (userId : Id) (first : StreakCall) (between : List StreakCall)
    (next : StreakCall) (w : World) : Prop where
  first_completes : first.completes host userId w = true
  between_completes : EachMeets (StreakCall.after host)
    (fun call w => call.completes host userId w = false) between (first.after host w)
  next_completes :
    next.completes host userId (oneByOne (StreakCall.after host) (first :: between) w) = true
  day_after : utcDay (oneByOne (StreakCall.after host) (first :: between) w).clock =
    utcDay w.clock + 1

theorem rollovers_of_none_completes
    (h : EachMeets (StreakCall.after host) (fun call w => call.completes host userId w = false)
      calls w) : ∀ e ∈ eventsOf host userId calls w, e.IsRollover := by
  induction calls generalizing w with
  | nil => exact fun e he => by cases he
  | cons call rest ih =>
      obtain ⟨hcall, hrest⟩ := h
      intro e he
      rcases List.mem_append.mp he with hnow | hlater
      · exact isRollover_of_mem_events hcall hnow
      · exact ih hrest e hlater

-- The streak grows from one day to the next exactly if the completions are more than 36
-- hours apart.
theorem streak_grows_iff {user : User} {first next : StreakCall} {between : List StreakCall}
    (huser : w.users.find? userId = some user) (h : InARow host userId first between next w) :
    (oneByOne (StreakCall.after host) (first :: between ++ [next]) w).streakDaysOf userId =
        (first.after host w).streakDaysOf userId + 1 ↔
      36 * 3600000 < (oneByOne (StreakCall.after host) (first :: between) w).clock - w.clock := by
  have hs : w.streakOf userId = some user.streak := by rw [World.streakOf, huser, Option.map_some]
  have hfirst := events_of_completes h.first_completes
  have hnext := events_of_completes h.next_completes
  have hevents : eventsOf host userId (first :: between ++ [next]) w =
      .completed w.clock :: eventsOf host userId between (first.after host w) ++
        [.completed (oneByOne (StreakCall.after host) (first :: between) w).clock] := by
    rw [eventsOf_append, eventsOf, hfirst, eventsOf, hnext]
    rfl
  have hone : (first.after host w).streakDaysOf userId = (user.streak.complete w.clock).days := by
    have hafter := (streakDaysOf_oneByOne host hs [first]).1
    rwa [eventsOf, hfirst] at hafter
  rw [(streakDaysOf_oneByOne host hs _).1, hevents, hone, List.cons_append, Streak.run_cons,
    Streak.run_concat]
  apply Streak.days_grow_iff (rollovers_of_none_completes h.between_completes)
  · exact fun e he => (time_of_mem_eventsOf he).2
  · exact h.day_after

-- The hiker has started two quests.
def twoTrails (clock : Time) : World :=
  { World.empty with
    clock := clock
    users := Table.empty.insert hiker
    quests := (Table.empty.insert trail).insert { trail with id := 2 }
    completions := (Table.empty.insert { userId := 1, questId := 1, startedAt := 0 }).insert
      { userId := 1, questId := 2, startedAt := 0 } }

theorem new_twoTrails (clock : Time) : (twoTrails clock).streakOf 1 = some .new := rfl

-- At one o'clock, and at eight in the evening of the next day.
theorem streak_grows_in_43_hours : (oneByOne (StreakCall.after .plain)
    [.complete 1 1 none, .wait 82800000, .resetStaleStreaksUtc, .wait 72000000,
      .complete 1 2 none] (twoTrails 3600000)).streakDaysOf 1 =
    ((StreakCall.complete 1 1 none).after .plain (twoTrails 3600000)).streakDaysOf 1 + 1 := by
  have hrow : InARow .plain 1 (.complete 1 1 none)
      [.wait 82800000, .resetStaleStreaksUtc, .wait 72000000] (.complete 1 2 none)
      (twoTrails 3600000) :=
    ⟨by decide +kernel, ⟨by decide +kernel, by decide +kernel, by decide +kernel, trivial⟩,
      by decide +kernel, by decide +kernel⟩
  have huser : (twoTrails 3600000).users.find? 1 = some hiker := rfl
  exact (streak_grows_iff huser hrow).mpr (by decide +kernel)

-- At noon of two days in a row.
theorem streak_stays_in_24_hours : InARow .plain 1 (.complete 1 1 none)
      [.wait 43200000, .resetStaleStreaksUtc, .wait 43200000] (.complete 1 2 none)
      (twoTrails 43200000) ∧
    (oneByOne (StreakCall.after .plain)
      [.complete 1 1 none, .wait 43200000, .resetStaleStreaksUtc, .wait 43200000,
        .complete 1 2 none] (twoTrails 43200000)).streakDaysOf 1 = 1 ∧
    ((StreakCall.complete 1 1 none).after .plain (twoTrails 43200000)).streakDaysOf 1 = 1 :=
  ⟨⟨by decide +kernel, ⟨by decide +kernel, by decide +kernel, by decide +kernel, trivial⟩,
    by decide +kernel, by decide +kernel⟩, by decide +kernel, by decide +kernel⟩

-- After every completion of the user the streak is at least one day and at most the
-- longest one.
def CountedAfter (host : Host) (userId : Id) (calls : List StreakCall) (w : World) : Prop :=
  ∀ before call, before ++ [call] <+: calls →
    call.completes host userId (oneByOne (StreakCall.after host) before w) = true →
      1 ≤ (oneByOne (StreakCall.after host) (before ++ [call]) w).streakDaysOf userId ∧
        (oneByOne (StreakCall.after host) (before ++ [call]) w).streakDaysOf userId ≤
          (oneByOne (StreakCall.after host) (before ++ [call]) w).longestStreakDaysOf userId

theorem eventsOf_concat_completes {before : List StreakCall} {call : StreakCall}
    (h : call.completes host userId (oneByOne (StreakCall.after host) before w) = true) :
    eventsOf host userId (before ++ [call]) w = eventsOf host userId before w ++
      [.completed (oneByOne (StreakCall.after host) before w).clock] := by
  rw [eventsOf_append, eventsOf, events_of_completes h]
  rfl

theorem eventsOf_prefix (host : Host) (userId : Id) (w : World) {before : List StreakCall}
    (h : before <+: calls) :
    eventsOf host userId before w <+: eventsOf host userId calls w := by
  obtain ⟨after, rfl⟩ := h
  rw [eventsOf_append]
  exact List.prefix_append _ _

-- A completion among the events is a call that completes.
theorem exists_completes_of_prefix {events : List Streak.Event} {now : ℤ}
    (h : events ++ [.completed now] <+: eventsOf host userId calls w) :
    ∃ before call, before ++ [call] <+: calls ∧
      call.completes host userId (oneByOne (StreakCall.after host) before w) = true ∧
      eventsOf host userId (before ++ [call]) w = events ++ [.completed now] := by
  induction calls using List.reverseRecOn with
  | nil => simpa [eventsOf] using h.length_le
  | append_singleton calls call ih =>
      have hstep : eventsOf host userId (calls ++ [call]) w = eventsOf host userId calls w ++
          call.events host userId (oneByOne (StreakCall.after host) calls w) := by
        rw [eventsOf_append, eventsOf, eventsOf, List.append_nil]
      have hbefore (h : events ++ [.completed now] <+: eventsOf host userId calls w) :
          ∃ before call', before ++ [call'] <+: calls ++ [call] ∧
            call'.completes host userId (oneByOne (StreakCall.after host) before w) = true ∧
            eventsOf host userId (before ++ [call']) w = events ++ [.completed now] := by
        obtain ⟨before, call', hcalls, hcompletes, hevents⟩ := ih h
        exact ⟨before, call', hcalls.trans (List.prefix_append _ _), hcompletes, hevents⟩
      rw [hstep] at h
      rcases events_cases host userId call (oneByOne (StreakCall.after host) calls w) with
        hnone | ⟨e, hone, _⟩
      · rw [hnone, List.append_nil] at h
        exact hbefore h
      · rw [hone] at h hstep
        rcases List.prefix_concat_iff.mp h with heq | h
        · refine ⟨calls, call, List.prefix_refl _, ?_, hstep.trans heq.symm⟩
          by_contra hn
          have he : e = .completed now := by
            have hlast := congrArg List.getLast? heq
            simpa using hlast.symm
          have hroll := isRollover_of_mem_events (Bool.eq_false_of_not_eq_true hn)
            (hone ▸ List.mem_singleton_self e)
          rw [he] at hroll
          exact hroll
        · exact hbefore h

-- Every completion of a new user counts exactly if no rollover resets a streak between
-- two completions within 36 hours.
theorem countedAfter_iff_keptWarm (hnew : w.streakOf userId = some .new)
    (calls : List StreakCall) : CountedAfter host userId calls w ↔
      Streak.KeptWarm (eventsOf host userId calls w) := by
  rw [← Streak.counted_iff_keptWarm]
  constructor
  · intro h events now hprefix
    obtain ⟨before, call, hcalls, hcompletes, hevents⟩ := exists_completes_of_prefix hprefix
    obtain ⟨hdays, hlongest⟩ := streakDaysOf_oneByOne host hnew (before ++ [call])
    have hcounted := h before call hcalls hcompletes
    rwa [hdays, hlongest, hevents] at hcounted
  · intro h before call hcalls hcompletes
    obtain ⟨hdays, hlongest⟩ := streakDaysOf_oneByOne host hnew (before ++ [call])
    have hprefix := eventsOf_prefix host userId w hcalls
    rw [eventsOf_concat_completes hcompletes] at hprefix
    rw [hdays, hlongest, eventsOf_concat_completes hcompletes]
    exact h _ _ hprefix

theorem countedAfter_two_days : CountedAfter .plain 1
    [.complete 1 1 none, .wait 82800000, .resetStaleStreaksUtc, .complete 1 2 none]
    (twoTrails 3600000) := by
  apply (countedAfter_iff_keptWarm (new_twoTrails 3600000) _).mpr
  have hevents : eventsOf .plain 1
      [.complete 1 1 none, .wait 82800000, .resetStaleStreaksUtc, .complete 1 2 none]
      (twoTrails 3600000) = [.completed 3600000, .rollover 86400000, .completed 86400000] := by
    decide +kernel
  rw [hevents]
  intro before t between t' after r heq _ hmem _
  have hr : .rollover r ∈ before ++ .completed t :: between ++ .completed t' :: after := by
    simp [hmem]
  have ht : .completed t ∈ before ++ .completed t :: between ++ .completed t' :: after := by
    simp
  rw [← heq] at hr ht
  simp only [List.mem_cons, reduceCtorEq, Streak.Event.rollover.injEq,
    Streak.Event.completed.injEq, List.not_mem_nil, false_or, or_false] at hr ht
  rcases ht with rfl | rfl <;> rw [hr] <;> decide

-- Shortly before midnight, and shortly after the next midnight but one.
theorem streak_zero_after_completion : (twoTrails 82800000).streakOf 1 = some .new ∧
    ¬CountedAfter .plain 1
      [.complete 1 1 none, .wait 3600000, .resetStaleStreaksUtc, .wait 86400000,
        .resetStaleStreaksUtc, .wait 3600000, .complete 1 2 none] (twoTrails 82800000) := by
  refine ⟨rfl, fun h => ?_⟩
  have hcounted := h [.complete 1 1 none, .wait 3600000, .resetStaleStreaksUtc, .wait 86400000,
    .resetStaleStreaksUtc, .wait 3600000] (.complete 1 2 none) (List.prefix_refl _)
    (by decide +kernel)
  exact absurd hcounted.1 (by decide +kernel)

-- All along, the streaks are covered by days with completions, and they grow at most
-- once a day.
structure NotInflated (host : Host) (userId : Id) (calls : List StreakCall) (w : World) : Prop where
  days_le : ∀ before, before <+: calls →
    (oneByOne (StreakCall.after host) before w).streakDaysOf userId ≤
      (Streak.completionDays (eventsOf host userId before w)).card
  longest_le : ∀ before, before <+: calls →
    (oneByOne (StreakCall.after host) before w).longestStreakDaysOf userId ≤
      (Streak.completionDays (eventsOf host userId before w)).card
  once_a_day : ∀ before call between call', before ++ call :: between ++ [call'] <+: calls →
    (oneByOne (StreakCall.after host) before w).streakDaysOf userId <
        (oneByOne (StreakCall.after host) (before ++ [call]) w).streakDaysOf userId →
      (oneByOne (StreakCall.after host) (before ++ call :: between) w).streakDaysOf userId <
          (oneByOne (StreakCall.after host) (before ++ call :: between ++ [call']) w).streakDaysOf
            userId →
        utcDay (oneByOne (StreakCall.after host) before w).clock ≠
          utcDay (oneByOne (StreakCall.after host) (before ++ call :: between) w).clock

-- An event of the call moved the streak.
theorem exists_event_of_lt {events : List Streak.Event} {call : StreakCall}
    (h : (s.run events).days < (s.run (events ++ call.events host userId w)).days) :
    ∃ e, call.events host userId w = [e] ∧ e.time = w.clock := by
  rcases events_cases host userId call w with hnone | hone
  · rw [hnone, List.append_nil] at h
    exact absurd h (Nat.lt_irrefl _)
  · exact hone

theorem notInflated (host : Host) (hnew : w.streakOf userId = some .new)
    (calls : List StreakCall) : NotInflated host userId calls w where
  days_le before _ := by
    rw [(streakDaysOf_oneByOne host hnew before).1]
    exact (Streak.withinDays_run (inOrder_eventsOf before w)).days_le
  longest_le before _ := by
    rw [(streakDaysOf_oneByOne host hnew before).2]
    exact (Streak.withinDays_run (inOrder_eventsOf before w)).longest_le
  once_a_day before call between call' _ hfirst hsecond := by
    simp only [(streakDaysOf_oneByOne host hnew _).1, eventsOf_append, eventsOf,
      List.append_nil] at hfirst hsecond
    obtain ⟨e, hone, htime⟩ := exists_event_of_lt hfirst
    obtain ⟨e', hone', htime'⟩ := exists_event_of_lt hsecond
    have hbetween : ∀ e₁ ∈ eventsOf host userId between
        (call.after host (oneByOne (StreakCall.after host) before w)), e.time ≤ e₁.time :=
      fun e₁ he₁ => htime.le.trans ((clock_after call).trans (time_of_mem_eventsOf he₁).1)
    rw [hone, Streak.run_concat] at hfirst
    rw [hone, hone', Streak.run_concat, Streak.run_append, Streak.run_append] at hsecond
    rw [← htime, ← htime']
    exact Streak.utcDay_ne_of_days_lt hbetween hfirst hsecond

theorem notInflated_two_days : NotInflated .plain 1
    [.complete 1 1 none, .wait 82800000, .resetStaleStreaksUtc, .complete 1 2 none]
    (twoTrails 3600000) :=
  notInflated .plain (new_twoTrails 3600000) _

end SideQuest
