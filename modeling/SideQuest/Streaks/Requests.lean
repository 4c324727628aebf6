import SideQuest.Quests.Alone
import SideQuest.Streaks.Counter

-- The requests and the job that move the streaks, served one at a time: on the row of one
-- user they do what the counter does.

namespace SideQuest

open ReadCommitted QuestsService StreakRolloverService

def User.streak (user : User) : Streak :=
  ⟨user.streakDays, user.longestStreakDays, user.lastQuestCompletedAt⟩

def World.streakOf (w : World) (userId : Id) : Option Streak :=
  (w.users.find? userId).map User.streak

inductive StreakCall where
  | start (userId questId : Id)
  | complete (userId questId : Id) (proof : Option CompletionProof)
  | checkInLocation (userId questId locationId : Id) (body : QuestCheckInBody)
  | resetStaleStreaksUtc
  | wait (elapsed : ℕ)

namespace StreakCall

def after (host : Host) : StreakCall → World → World
  | .start userId questId, w => ((QuestsService.start userId questId).alone w).2
  | .complete userId questId proof, w =>
      ((QuestsService.complete host userId questId proof).alone w).2
  | .checkInLocation userId questId locationId body, w =>
      ((QuestsService.checkInLocation host userId questId locationId body).alone w).2
  | .resetStaleStreaksUtc, w => (StreakRolloverService.resetStaleStreaksUtc.alone w).2
  | .wait elapsed, w => Backend.happen Stmt elapsed w

-- The call answers that it has completed a quest for the user.
def completes (host : Host) (userId : Id) : StreakCall → World → Bool
  | .complete u questId proof, w =>
      u = userId ∧ ((QuestsService.complete host u questId proof).alone w).1.isOk
  | .checkInLocation u questId locationId body, w =>
      u = userId ∧ ((QuestsService.checkInLocation host u questId locationId body).alone w).1.toOption =
        some ⟨201, true, true⟩
  | _, _ => false

-- What the call is to the user's counter.
def events (host : Host) (userId : Id) (call : StreakCall) (w : World) : List Streak.Event :=
  if call.completes host userId w then [.completed w.clock]
  else match call with
    | .resetStaleStreaksUtc => [.rollover w.clock]
    | _ => []

end StreakCall

section Writes

variable {host : Host} {w : World} {userId questId : Id}

theorem streakOf_view_emits (events : List AppEvent) (u : Id) :
    (view Stmt w (events.map .emit)).streakOf u = w.streakOf u := by
  rw [view_emits, World.streakOf, World.streakOf]

-- A finalization completes the counter of its user.
theorem streakOf_finalize {quest : QuestWithLocations} {proof : Option CompletionProof}
    {user : User} {row : QuestCompletion} (huser : w.users.find? userId = some user) (now : Time)
    (u : Id) :
    (view Stmt w [claimWrite userId questId quest proof row now,
      rewardWrite host userId quest user now]).streakOf u =
        if u = userId then (w.streakOf u).map fun s => s.complete now else w.streakOf u := by
  simp only [view_cons, view_nil, apply_eq, World.streakOf]
  rw [World.find?_userUpdate]
  split
  · rename_i he
    rw [he]
    simp only [World.apply, huser, Option.map_some]
    rfl
  · rfl

theorem streakOf_checkInWrites (locationId : Id) (body : QuestCheckInBody) (u : Id) :
    (view Stmt w (checkInWrites w userId questId locationId body)).streakOf u = w.streakOf u := by
  simp only [checkInWrites, view_cons, view_nil, apply_eq, World.streakOf]
  rw [World.find?_userUpdate]
  split
  · rw [Option.map_map]
    rfl
  · rfl

-- The same update of several rows.
theorem find?_view_userUpdates (d : UserUpdate) {ids : List Id} (hids : ids.Nodup) (u : Id) :
    (view Stmt w (ids.map fun id => .userUpdate id d)).users.find? u =
      if u ∈ ids then (w.users.find? u).map d.apply else w.users.find? u := by
  induction ids generalizing w with
  | nil => rfl
  | cons id rest ih =>
      obtain ⟨hid, hrest⟩ := List.nodup_cons.mp hids
      rw [List.map_cons, view_cons, ih hrest, apply_eq, World.find?_userUpdate]
      by_cases hu : u = id
      · subst hu
        simp [hid]
      · simp [hu]

theorem resetStaleStreaksUtc_alone : (resetStaleStreaksUtc.alone w).2 =
    view Stmt w (((w.users.rows.filter fun u => u.streakStale (staleBefore w.clock)).map User.id).map
      fun id => .userUpdate id { streakDays := some 0 }) := by
  rw [List.map_map]
  rfl

theorem streakOf_reset (u : Id) : (resetStaleStreaksUtc.alone w).2.streakOf u =
    (w.streakOf u).map fun s => s.rollover w.clock := by
  have hids := w.users.nodup.sublist ((List.filter_sublist
    (p := fun u : User => u.streakStale (staleBefore w.clock))).map User.id)
  rw [World.streakOf, resetStaleStreaksUtc_alone, find?_view_userUpdates _ hids, World.streakOf]
  cases hfound : w.users.find? u with
  | none => simp
  | some user =>
      have hmem := Table.mem_of_find? hfound
      have hid : user.id = u := Table.key_of_find? hfound
      have hiff : u ∈ (w.users.rows.filter fun u => u.streakStale (staleBefore w.clock)).map User.id ↔
          user.streakStale (staleBefore w.clock) = true := by
        rw [List.mem_map]
        constructor
        · rintro ⟨user', hmem', hid'⟩
          obtain ⟨hrow', hstale⟩ := List.mem_filter.mp hmem'
          have hsame := List.inj_on_of_nodup_map w.users.nodup hrow' hmem (hid'.trans hid.symm)
          exact hsame ▸ hstale
        · exact fun hstale => ⟨user, List.mem_filter.mpr ⟨hmem, hstale⟩, hid⟩
      by_cases hstale : user.streakStale (staleBefore w.clock) = true
      · have hreset : user.streak.rollover w.clock = { user.streak with days := 0 } :=
          if_pos (of_decide_eq_true hstale)
        rw [if_pos (hiff.mpr hstale)]
        exact congrArg some hreset.symm
      · have hkept : user.streak.rollover w.clock = user.streak :=
          if_neg fun hs => hstale (decide_eq_true hs)
        rw [if_neg fun hu => hstale (hiff.mp hu)]
        exact congrArg some hkept.symm

end Writes

section Calls

variable {host : Host} {w : World} {userId : Id}

-- `start` writes completions only.
theorem users_start (u q : Id) : ((start u q).alone w).2.users = w.users := by
  let R : Rules Stmt := Rules.alone fun w' : World => w'.users = w.users
  have hwp : R.wp 0 (fun _ _ => True) (start u q) ⟨w, []⟩ := by
    apply wp_start
    · exact fun s e h => ⟨h, trivial⟩
    · intro _ s' _ _ _ _ _ _ hr _
      have h : s'.db.users = w.users := R.rely_inv hr
      exact ⟨h, trivial⟩
    · intro s' hr _ _
      have h : s'.db.users = w.users := R.rely_inv hr
      exact ⟨h, trivial⟩
  have hw : R.inv ⟨w, []⟩ := rfl
  exact (Rules.wp_alone hw hwp).1

theorem streakOf_complete (u q : Id) (proof : Option CompletionProof) :
    (StreakCall.complete u q proof |>.after host w).streakOf userId = (w.streakOf userId).map
      fun s => s.run ((StreakCall.complete u q proof).events host userId w) := by
  have hcases := complete_cases host u q proof w
  rcases hcases with ⟨hfail, hsame⟩ | ⟨hok, quest, user, row, _, huser, hafter⟩
  · simp [StreakCall.after, hsame, StreakCall.events, StreakCall.completes, hfail]
  · rw [StreakCall.after, hafter, view_append, streakOf_view_emits, streakOf_finalize huser]
    by_cases hu : userId = u
    · simp [StreakCall.events, StreakCall.completes, hok, hu, Streak.step]
    · simp [StreakCall.events, StreakCall.completes, hu, Ne.symm hu]

theorem streakOf_checkInLocation (u q locationId : Id) (body : QuestCheckInBody) :
    (StreakCall.checkInLocation u q locationId body |>.after host w).streakOf userId =
      (w.streakOf userId).map
        fun s => s.run ((StreakCall.checkInLocation u q locationId body).events host userId w) := by
  have hcases := checkInLocation_cases host u q locationId body w
  rcases hcases with ⟨hnew, hsame⟩ | ⟨l, rfl, hopen⟩
  · simp [StreakCall.after, hsame, StreakCall.events, StreakCall.completes, hnew]
  · by_cases hcount : (w.visitsAt u q).length + 1 < (w.locationsOf q).length
    · have halone := checkInLocation_alone_step hopen hcount
      rw [StreakCall.after, halone, view_append]
      refine (streakOf_checkInWrites l.id body userId).trans ?_
      simp [StreakCall.events, StreakCall.completes, halone, Except.toOption]
    · obtain ⟨quest, row, user, _, huser, halone⟩ :=
        checkInLocation_alone_last hopen (Nat.le_of_not_lt hcount)
      have huser' : (view Stmt w (checkInWrites w u q l.id body)).users.find? u =
          some (UserUpdate.apply { placesVisited := .increment 1 } user) := by
        simp [checkInWrites, World.apply, huser]
      rw [StreakCall.after, halone, view_append, streakOf_view_emits, view_append,
        streakOf_finalize huser', streakOf_checkInWrites]
      by_cases hu : userId = u
      · simp [StreakCall.events, StreakCall.completes, halone, Except.toOption, hu, Streak.step]
      · simp [StreakCall.events, StreakCall.completes, hu, Ne.symm hu]

-- A call does to the counter what its events say.
theorem streakOf_after (call : StreakCall) : (call.after host w).streakOf userId =
    (w.streakOf userId).map fun s => s.run (call.events host userId w) := by
  have hkeep (o : Option Streak) : o = o.map fun s => s.run [] := by simp
  cases call with
  | start u q =>
      rw [World.streakOf, StreakCall.after, users_start]
      exact hkeep _
  | complete u q proof => exact streakOf_complete u q proof
  | checkInLocation u q l body => exact streakOf_checkInLocation u q l body
  | resetStaleStreaksUtc => exact streakOf_reset userId
  | wait elapsed => exact hkeep _

theorem clock_after (call : StreakCall) : w.clock ≤ (call.after host w).clock := by
  have hrequest {α : Type} (p : Request α) : (p.alone w).2.clock = w.clock :=
    Prog.alone_keeps (fun db wr hdb => (clock_apply db wr).trans hdb) p rfl
  cases call with
  | wait elapsed => exact Int.le_add_of_nonneg_right (Int.natCast_nonneg elapsed)
  | _ => exact (hrequest _).ge

-- At most one event, at the time of the call.
theorem events_cases (host : Host) (userId : Id) (call : StreakCall) (w : World) :
    call.events host userId w = [] ∨ ∃ e, call.events host userId w = [e] ∧ e.time = w.clock := by
  unfold StreakCall.events
  split
  · exact Or.inr ⟨_, rfl, rfl⟩
  · split
    · exact Or.inr ⟨_, rfl, rfl⟩
    · exact Or.inl rfl

theorem time_of_mem_events {call : StreakCall} {e : Streak.Event}
    (h : e ∈ call.events host userId w) : e.time = w.clock := by
  rcases events_cases host userId call w with hnone | ⟨e', hone, htime⟩
  · rw [hnone] at h
    cases h
  · rw [hone, List.mem_singleton] at h
    rw [h, htime]

theorem isRollover_of_mem_events {call : StreakCall}
    (hcall : call.completes host userId w = false) {e : Streak.Event}
    (h : e ∈ call.events host userId w) : e.IsRollover := by
  unfold StreakCall.events at h
  rw [hcall, if_neg Bool.false_ne_true] at h
  cases call with
  | resetStaleStreaksUtc =>
      rw [List.mem_singleton.mp h]
      trivial
  | _ => cases h

end Calls

-- The events of the calls served so far, on the data that each of them finds.
def eventsOf (host : Host) (userId : Id) : List StreakCall → World → List Streak.Event
  | [], _ => []
  | call :: rest, w => call.events host userId w ++ eventsOf host userId rest (call.after host w)

section Runs

variable {host : Host} {userId : Id}

theorem eventsOf_append (calls calls' : List StreakCall) (w : World) :
    eventsOf host userId (calls ++ calls') w = eventsOf host userId calls w ++
      eventsOf host userId calls' (oneByOne (StreakCall.after host) calls w) := by
  induction calls generalizing w with
  | nil => rfl
  | cons call rest ih =>
      rw [List.cons_append, eventsOf, eventsOf, ih, List.append_assoc]
      rfl

-- A run moves the counter by its events.
theorem streakOf_oneByOne (calls : List StreakCall) (w : World) :
    (oneByOne (StreakCall.after host) calls w).streakOf userId =
      (w.streakOf userId).map fun s => s.run (eventsOf host userId calls w) := by
  induction calls generalizing w with
  | nil => simp [oneByOne, eventsOf]
  | cons call rest ih =>
      have hnext := ih (call.after host w)
      rw [streakOf_after, Option.map_map] at hnext
      refine hnext.trans ?_
      rw [eventsOf]
      congr 1
      funext s
      exact (s.run_append _).symm

theorem clock_oneByOne (calls : List StreakCall) (w : World) :
    w.clock ≤ (oneByOne (StreakCall.after host) calls w).clock := by
  induction calls generalizing w with
  | nil => exact le_rfl
  | cons call rest ih => exact (clock_after call).trans (ih _)

theorem time_of_mem_eventsOf {calls : List StreakCall} {w : World} {e : Streak.Event}
    (h : e ∈ eventsOf host userId calls w) :
    w.clock ≤ e.time ∧ e.time ≤ (oneByOne (StreakCall.after host) calls w).clock := by
  induction calls generalizing w with
  | nil => cases h
  | cons call rest ih =>
      have hrest : (call.after host w).clock ≤
          (oneByOne (StreakCall.after host) rest (call.after host w)).clock := clock_oneByOne _ _
      rcases List.mem_append.mp h with he | he
      · rw [time_of_mem_events he]
        exact ⟨le_rfl, (clock_after call).trans hrest⟩
      · obtain ⟨hge, hle⟩ := ih he
        exact ⟨(clock_after call).trans hge, hle⟩

theorem inOrder_eventsOf (calls : List StreakCall) (w : World) :
    Streak.InOrder (eventsOf host userId calls w) := by
  induction calls generalizing w with
  | nil => exact List.Pairwise.nil
  | cons call rest ih =>
      rw [eventsOf, Streak.InOrder, List.pairwise_append]
      refine ⟨?_, ih _, fun e he e' he' => ?_⟩
      · have hone : ∀ e ∈ call.events host userId w, ∀ e' ∈ call.events host userId w,
            e.time ≤ e'.time := fun e he e' he' =>
          ((time_of_mem_events he).trans (time_of_mem_events he').symm).le
        exact List.pairwise_of_forall_mem_list hone
      · rw [time_of_mem_events he]
        exact (clock_after call).trans (time_of_mem_eventsOf he').1

end Runs

end SideQuest
