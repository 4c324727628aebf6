import SideQuest.Model.Leaderboard
import SideQuest.Quests.Availability
import SideQuest.Rewards.Covered

-- The boards of two periods and of all time next to each other: who has more on the board
-- of the later start, has it on the others as well.

namespace SideQuest

open QuestsService LeaderboardRepository

-- The points and the quests of one row are at most those of the other.
structure LeaderboardRepository.LeaderboardSqlRow.AtMost (row row' : LeaderboardSqlRow) :
    Prop where
  xp : row.xp ≤ row'.xp
  questsDone : row.questsDone ≤ row'.questsDone

section Rows

variable {completions : List QuestCompletion} {s₁ s₂ : Time}

-- A later start leaves out more.
theorem completedSince_sublist (h : s₁ ≤ s₂) (userId : Id) :
    (completedSince completions s₂ userId).Sublist (completedSince completions s₁ userId) := by
  apply List.monotone_filter_right
  intro c hc
  obtain ⟨huser, hstatus, t, ht, hstart⟩ := of_decide_eq_true hc
  exact decide_eq_true ⟨huser, hstatus, t, ht, h.trans hstart⟩

theorem completedSince_sublist_completed (userId : Id) :
    (completedSince completions s₁ userId).Sublist
      (completions.filter fun c => c.userId = userId ∧ c.status = .COMPLETED) := by
  apply List.monotone_filter_right
  intro c hc
  obtain ⟨huser, hstatus, _⟩ := of_decide_eq_true hc
  exact decide_eq_true ⟨huser, hstatus⟩

theorem sum_awards_le {rows rows' : List QuestCompletion} (h : rows.Sublist rows')
    (hawards : ∀ c ∈ rows', 0 ≤ c.xpAwarded) :
    (rows.map (·.xpAwarded)).sum ≤ (rows'.map (·.xpAwarded)).sum := by
  refine (h.map _).sum_le_sum fun xp hxp => ?_
  obtain ⟨c, hc, rfl⟩ := List.mem_map.mp hxp
  exact hawards c hc

theorem periodRow_antitone (hawards : ∀ c ∈ completions, 0 ≤ c.xpAwarded) (h : s₁ ≤ s₂)
    (u : RankedUser) : (periodRow completions s₂ u).AtMost (periodRow completions s₁ u) where
  xp := sum_awards_le (completedSince_sublist h u.id) fun c hc =>
    hawards c (List.mem_of_mem_filter hc)
  questsDone := (completedSince_sublist h u.id).length_le

-- The counters of a user who is there cover what any period counts.
theorem Covered.periodRow_atMost {w : World} (h : Covered w) {u : RankedUser}
    (hu : u.toUser ∈ w.users.rows) (s₁ : Time) :
    (periodRow w.completions.rows s₁ u).AtMost (allTimeRow u) := by
  have hfound : w.users.find? u.id = some u.toUser := Table.find?_of_mem hu
  have hsublist : (completedSince w.completions.rows s₁ u.id).Sublist
      (w.completions.rows.filter fun c => c.userId = u.id ∧ c.status = .COMPLETED) :=
    completedSince_sublist_completed u.id
  constructor
  · have hquestXp : ((w.completions.rows.filter fun c => c.userId = u.id ∧
        c.status = .COMPLETED).map (·.xpAwarded)).sum = w.questXp u.id := by
      rw [Table.sum_filter]
      simp only [World.questXp, decide_eq_true_eq]
    have hxp : w.xpOf u.id = u.xp := by rw [World.xpOf, hfound, Option.elim_some]
    calc periodXp w.completions.rows s₁ u.id
        ≤ _ := sum_awards_le hsublist fun c hc => h.awards c (List.mem_of_mem_filter hc)
      _ = w.questXp u.id := hquestXp
      _ ≤ w.xpOf u.id := h.xp u.id
      _ = u.xp := hxp
  · have hcompleted : (w.completions.rows.filter fun c => c.userId = u.id ∧
        c.status = .COMPLETED).length = w.completedQuests u.id := List.countP_eq_length_filter.symm
    have hdone : w.questsDoneOf u.id = u.questsDone := by
      rw [World.questsDoneOf, hfound, Option.elim_some]
    calc periodQuestsDone w.completions.rows s₁ u.id
        ≤ _ := hsublist.length_le
      _ = w.completedQuests u.id := hcompleted
      _ ≤ w.questsDoneOf u.id := h.questsDone u.id
      _ = u.questsDone := hdone

end Rows

-- The calls that move the counters or their rows, and edits of the quests.
inductive PlayedCall where
  | play (call : LedgerCall)
  | update (actor : Actor) (questId : Id) (dto : UpdateQuestDto)

def PlayedCall.after (host : Host) : PlayedCall → Editorial → Editorial
  | .play call, s => { s with world := call.after host s.world }
  | .update actor questId dto, s => EditedCall.after host (.update actor questId dto) s

-- An edit sets no reward below zero.
theorem Covered.update {s s' : Editorial} {actor : Actor} {questId : Id} {dto : UpdateQuestDto}
    {answer : Quest × QuestColumns} (h : Covered s.world)
    (hok : QuestsService.update actor questId dto s = .ok (answer, s')) : Covered s'.world := by
  obtain ⟨_, category, _, _, _, rfl⟩ := update_ok hok
  refine ⟨h.awards, fun quest hquest => ?_, h.questsDone, h.xp⟩
  obtain ⟨old, hold, rfl⟩ := List.mem_map.mp hquest
  have hreward : 0 ≤ old.xpReward := h.rewards old hold
  split
  · cases hxp : dto.xpReward with
    | none => simpa [UpdateQuestDto.apply, hxp] using hreward
    | some xp => simp [UpdateQuestDto.apply, hxp]
  · exact hreward

theorem Covered.played (host : Host) {s : Editorial} (h : Covered s.world)
    (calls : List PlayedCall) : Covered (oneByOne (PlayedCall.after host) calls s).world := by
  let inv (s' : Editorial) : Prop := Covered s'.world
  have hany : EachMeets (PlayedCall.after host) (fun _ _ => True) calls s :=
    eachMeets_of_forall (fun _ _ => trivial) calls s
  have hcall (call : PlayedCall) (s' : Editorial) (hs' : inv s') : inv (call.after host s') := by
    cases call with
    | play call => exact Covered.after host call hs'
    | update actor questId dto =>
        unfold PlayedCall.after EditedCall.after
        dsimp only
        split
        · rename_i hok
          exact Covered.update hs' hok
        · exact hs'
  have hrun : inv (oneByOne (PlayedCall.after host) calls s) :=
    oneByOne_inv (fun call _ s' hs' _ => hcall call s' hs') h hany
  exact hrun

-- From a database in which nobody has started a quest, after any calls one at a time: a
-- later period shows no more than an earlier one, and that no more than all time.
theorem periods_consistent (host : Host) {s : Editorial} (hs : Unplayed s.world)
    (calls : List PlayedCall) {u : RankedUser}
    (hu : u.toUser ∈ (oneByOne (PlayedCall.after host) calls s).world.users.rows)
    {s₁ s₂ : Time} (h : s₁ ≤ s₂) :
    let completions := (oneByOne (PlayedCall.after host) calls s).world.completions.rows
    (periodRow completions s₂ u).AtMost (periodRow completions s₁ u) ∧
      (periodRow completions s₁ u).AtMost (allTimeRow u) := by
  have hcovered := hs.covered.played host calls
  exact ⟨periodRow_antitone hcovered.awards h u, hcovered.periodRow_atMost hu s₁⟩

-- The trail before the hiker has started it.
def untroddenTrail : Editorial where
  world := { onTheTrail with completions := Table.empty }
  columns _ := { title := "Trail", description := "A trail to walk", authorId := some 2 }
  categories := Table.empty

theorem unplayed_untroddenTrail : Unplayed untroddenTrail.world where
  completions := rfl
  rewards := by decide +kernel
  xp := by decide +kernel

-- A quest that is worth less by the time it is completed.
theorem periods_consistent_trail :
    let s := oneByOne (PlayedCall.after .plain) [.play (.start 1 1),
      .update ⟨2, .USER⟩ 1 { xpReward := some 30 }, .play (.complete 1 1 none)] untroddenTrail
    ∃ u : RankedUser, u.toUser ∈ s.world.users.rows ∧
      (periodRow s.world.completions.rows 5 u).AtMost (periodRow s.world.completions.rows 0 u) ∧
        (periodRow s.world.completions.rows 0 u).AtMost (allTimeRow u) ∧
          (periodRow s.world.completions.rows 0 u).xp = 30 := by
  intro s
  have hpaid : ((s.world.users.find? 1).map User.xp,
      periodXp s.world.completions.rows 0 1) = (some 30, 30) := by decide +kernel
  obtain ⟨hxp, hperiod⟩ := Prod.mk.inj hpaid
  obtain ⟨user, hfound, _⟩ := Option.map_eq_some_iff.mp hxp
  have hid : user.id = 1 := Table.key_of_find? hfound
  let u : RankedUser := { user with createdAt := 0 }
  have hu : u.toUser ∈ s.world.users.rows := Table.mem_of_find? hfound
  obtain ⟨hlater, hall⟩ := periods_consistent .plain unplayed_untroddenTrail _ hu
    (by decide : (0 : Time) ≤ 5)
  refine ⟨u, hu, hlater, hall, ?_⟩
  show periodXp s.world.completions.rows 0 user.id = 30
  rw [hid, hperiod]

end SideQuest
