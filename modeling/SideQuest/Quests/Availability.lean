import SideQuest.Model.QuestEdits
import SideQuest.Quests.Alone
import SideQuest.Rewards.Awards

-- Quests that are edited while they are played: what is paid for one that is not
-- published.

namespace SideQuest

open ReadCommitted

namespace QuestsService

def Available (questId : Id) (w : World) : Prop :=
  (w.quests.find? questId).map Quest.status = some .PUBLISHED

instance (questId : Id) (w : World) : Decidable (Available questId w) :=
  inferInstanceAs (Decidable (_ = _))

-- The user has a row for the quest that is not completed.
def InProgress (userId questId : Id) (w : World) : Prop :=
  ∃ row, w.completions.find? (userId, questId) = some row ∧ row.status ≠ .COMPLETED

-- An update that goes through has found its quest, was allowed, and changes one row.
theorem update_ok {actor : Actor} {questId : Id} {dto : UpdateQuestDto} {s s' : Editorial}
    {answer : Quest × QuestColumns} (h : update actor questId dto s = .ok (answer, s')) :
    ∃ quest category, s.world.quests.find? questId = some quest ∧
      assertCanMutate actor (s.columns questId).authorId = .ok () ∧
        answer = (dto.apply category quest,
          dto.applyColumns s.world.clock (s.columns questId)) ∧
          s' = { s with
            world := { s.world with
              quests := s.world.quests.modify questId (dto.apply category) fun _ => rfl }
            columns := Function.update s.columns questId answer.2 } := by
  unfold update at h
  split at h
  · cases h
  · rename_i quest hquest
    cases hallowed : assertCanMutate actor (s.columns questId).authorId with
    | error e =>
        simp only [hallowed] at h
        cases h
    | ok _ =>
        cases hcategory : connectedCategory s.categories dto.categoryId with
        | error e =>
            simp only [hallowed, hcategory] at h
            cases h
        | ok category =>
            simp only [hallowed, hcategory] at h
            cases h
            exact ⟨quest, category, hquest, rfl, rfl, rfl⟩

section Alone

variable {host : Host} {w : World} {userId questId u q : Id} {ws : List Write}

-- Writes to the rows of one quest complete no other.
theorem completed_elsewhere (hws : ∀ u q, Lock.completion u q ∈ locksOf Stmt ws → q = questId)
    (hne : q ≠ questId) : Completed u q (view Stmt w ws) ↔ Completed u q w := by
  have hsame : (Lock.completion u q).same w (view Stmt w ws) :=
    same_view (fun hmem => hne (hws u q hmem)) w
  rw [Completed, Completed, hsame]

theorem locksOf_emits (events : List AppEvent) : locksOf Stmt (events.map .emit) = [] := by
  induction events with
  | nil => rfl
  | cons event rest ih => rw [List.map_cons, locksOf_cons, ih]; rfl

theorem complete_inProgress (host : Host) (userId questId : Id) (proof : Option CompletionProof)
    (w : World) : Prog.Ends (fun answer _ => answer.isOk = true → InProgress userId questId w)
      (complete host userId questId proof) w := by
  have herror (e : ApiError) : (Except.error e : Except ApiError CompleteOutcome).isOk = true →
      InProgress userId questId w := fun h => by cases h
  unfold complete
  refine Prog.ends_query (fun _ => rfl) (Prog.ends_expect (herror _) fun quest _ => ?_)
  refine Prog.ends_query (fun _ => rfl) (Prog.ends_expect (herror _) fun row hrow => ?_)
  exact Prog.ends_require (herror _) fun hopen _ => ⟨row, hrow, hopen⟩

-- Without its quest, its user or an open row of them, `complete` leaves no trace.
theorem complete_rejected {proof : Option CompletionProof}
    (h : ¬((w.quests.find? questId).isSome ∧ (w.users.find? userId).isSome ∧
      InProgress userId questId w)) : ((complete host userId questId proof).alone w).2 = w := by
  have hopen := complete_inProgress host userId questId proof w
  have hcases := complete_cases host userId questId proof w
  rcases hcases with ⟨_, hsame⟩ | ⟨hok, quest, user, row, hquest, huser, _⟩
  · exact hsame
  · exact absurd ⟨Option.isSome_of_eq_some hquest, Option.isSome_of_eq_some huser, hopen hok⟩ h

theorem complete_elsewhere {proof : Option CompletionProof} (hne : q ≠ questId) :
    Completed u q ((complete host userId questId proof).alone w).2 ↔ Completed u q w := by
  have hcases := complete_cases host userId questId proof w
  rcases hcases with ⟨_, hsame⟩ | ⟨_, quest, user, row, _, _, hafter⟩
  · rw [hsame]
  · rw [hafter]
    refine completed_elsewhere (fun u' q' hmem => ?_) hne
    rw [locksOf_append, locksOf_emits, List.append_nil] at hmem
    simp [locksOf, claimWrite, rewardWrite, Write.locks] at hmem
    exact hmem.2

-- With them it completes the row, whatever the status of the quest is.
theorem complete_goesThrough {proof : Option CompletionProof}
    (hquest : (w.quests.find? questId).isSome) (huser : (w.users.find? userId).isSome)
    (hopen : InProgress userId questId w) :
    Completed userId questId ((complete host userId questId proof).alone w).2 := by
  obtain ⟨quest, hquest⟩ := Option.isSome_iff_exists.mp hquest
  obtain ⟨user, huser⟩ := Option.isSome_iff_exists.mp huser
  obtain ⟨row, hrow, hopen⟩ := hopen
  have hfind : Stmt.exec (.questFindById questId) w =
      .ok (some ⟨quest, w.locationsOf questId⟩, []) := by rw [Stmt.exec, hquest]; rfl
  have hactive : Stmt.exec (.completionFindUnique userId questId) w = .ok (some row, []) := by
    rw [Stmt.exec, hrow, ask]
  let loaded : QuestWithLocations := ⟨quest, w.locationsOf questId⟩
  have htx : (finalizeQuestCompletionTx host userId questId loaded proof).alone [] w =
      .ok (_, [claimWrite userId questId loaded proof row w.clock,
        rewardWrite host userId loaded user w.clock]) :=
    finalizeQuestCompletionTx_alone [] huser hrow hopen rfl
  have hclaimed : Completed userId questId
      (w.apply (claimWrite userId questId loaded proof row w.clock)) := by
    simp [Completed, World.apply, hrow, QuestCompletionUpdate.apply, completedData]
  unfold complete
  rw [Prog.alone_query hfind, Prog.alone_expect rfl, Prog.alone_query hactive, Prog.alone_expect rfl,
    Prog.alone_require hopen, Prog.alone_transaction htx, Prog.alone_bind alone_emit,
    Prog.alone_bind alone_when_levelUp, view_emits, view_emits]
  exact hclaimed

theorem checkInLocation_rejected {locationId : Id} {body : QuestCheckInBody}
    (h : ¬Available questId w) :
    ((checkInLocation host userId questId locationId body).alone w).2 = w := by
  have hcases := checkInLocation_cases host userId questId locationId body w
  rcases hcases with ⟨_, hsame⟩ | ⟨l, _, hopen⟩
  · exact hsame
  · exact absurd hopen.published h

theorem checkInLocation_elsewhere {locationId : Id} {body : QuestCheckInBody} (hne : q ≠ questId) :
    Completed u q ((checkInLocation host userId questId locationId body).alone w).2 ↔
      Completed u q w := by
  have hcases := checkInLocation_cases host userId questId locationId body w
  rcases hcases with ⟨_, hsame⟩ | ⟨l, rfl, hopen⟩
  · rw [hsame]
  · by_cases hcount : (w.visitsAt userId questId).length + 1 < (w.locationsOf questId).length
    · rw [checkInLocation_alone_step hopen hcount]
      dsimp only
      refine completed_elsewhere (fun u' q' hmem => ?_) hne
      simp [checkInWrites, Write.locks] at hmem
      exact hmem.2
    · obtain ⟨quest, row, user, _, _, halone⟩ :=
        checkInLocation_alone_last hopen (Nat.le_of_not_lt hcount)
      rw [halone]
      dsimp only
      refine completed_elsewhere (fun u' q' hmem => ?_) hne
      rw [locksOf_append, locksOf_append, locksOf_emits, List.append_nil] at hmem
      simp [checkInWrites, claimWrite, rewardWrite, Write.locks] at hmem
      exact hmem.2

theorem completed_of_restarted {t : Time}
    (h : Completed u q (w.apply (.completionUpdate userId questId
      { status := some .STARTED, startedAt := some t }))) : Completed u q w := by
  simp only [Completed, World.apply, Table.find?_modify] at h
  split at h
  · simp [QuestCompletionUpdate.apply] at h
  · exact h

theorem completed_of_created {row : QuestCompletion} (hfree : w.completions.find? row.key = none)
    (hopen : row.status = .STARTED) (h : Completed u q (w.apply (.completionCreate row))) :
    Completed u q w := by
  simp only [Completed, World.apply, Table.find?_insert hfree] at h
  split at h
  · simp [hopen] at h
  · exact h

-- A start pays nobody and completes nothing.
theorem start_completesNothing (userId questId : Id) (w : World) :
    Prog.Ends (fun _ w' => w'.users = w.users ∧ ∀ u q, Completed u q w' → Completed u q w)
      (start userId questId) w := by
  have hsame : w.users = w.users ∧ ∀ u q, Completed u q w → Completed u q w := ⟨rfl, fun _ _ h => h⟩
  unfold start
  refine Prog.ends_query (fun _ => rfl) (Prog.ends_expect hsame fun quest _ => ?_)
  refine Prog.ends_require hsame fun _ => Prog.ends_query (fun _ => rfl) ?_
  refine Prog.ends_call (fun _ => hsame) fun _ ws he => ?_
  rcases exec_completionUpsertStarted he with ⟨_, _, rfl⟩ | ⟨hnone, _, rfl⟩
  · exact ⟨rfl, fun u q => completed_of_restarted⟩
  · exact ⟨rfl, fun u q => completed_of_created hnone rfl⟩

end Alone

end QuestsService

open QuestsService

-- What editors and players do to a quest, and time.
inductive EditedCall where
  | update (actor : Actor) (questId : Id) (dto : UpdateQuestDto)
  | start (userId questId : Id)
  | complete (userId questId : Id) (proof : Option CompletionProof)
  | checkInLocation (userId questId locationId : Id) (body : QuestCheckInBody)
  | wait (elapsed : ℕ)

namespace EditedCall

def after (host : Host) : EditedCall → Editorial → Editorial
  | .update actor questId dto, s =>
      match QuestsService.update actor questId dto s with
      | .ok (_, s') => s'
      | .error _ => s
  | .start userId questId, s =>
      { s with world := ((QuestsService.start userId questId).alone s.world).2 }
  | .complete userId questId proof, s =>
      { s with world := ((QuestsService.complete host userId questId proof).alone s.world).2 }
  | .checkInLocation userId questId locationId body, s =>
      { s with
        world := ((QuestsService.checkInLocation host userId questId locationId body).alone
          s.world).2 }
  | .wait elapsed, s => { s with world := Backend.happen Stmt elapsed s.world }

def questId : EditedCall → Option Id
  | .update _ questId _ | .start _ questId | .complete _ questId _
  | .checkInLocation _ questId _ _ => some questId
  | .wait _ => none

-- XP only for a quest that is published when the call comes, and so with completions.
structure PaysAvailable (call : EditedCall) (s s' : Editorial) : Prop where
  xp : ∀ u, s'.world.xpOf u = s.world.xpOf u ∨ ∃ q ∈ call.questId, Available q s.world
  completed : ∀ u q, Completed u q s'.world → Completed u q s.world ∨ Available q s.world

-- Nobody asks for the completion of a quest that is in progress and not published.
def AsksAvailable : EditedCall → Editorial → Prop
  | .complete userId questId _, s =>
      (s.world.quests.find? questId).isSome → (s.world.users.find? userId).isSome →
        InProgress userId questId s.world → Available questId s.world
  | _, _ => True

variable {host : Host} {call : EditedCall} {s : Editorial}

-- An edit touches neither the users nor their rows.
theorem after_update (host : Host) (actor : Actor) (questId : Id) (dto : UpdateQuestDto)
    (s : Editorial) : ((update actor questId dto).after host s).world.users = s.world.users ∧
      ((update actor questId dto).after host s).world.completions = s.world.completions := by
  unfold after
  dsimp only
  split
  · rename_i hok
    obtain ⟨_, _, _, _, _, rfl⟩ := update_ok hok
    exact ⟨rfl, rfl⟩
  · exact ⟨rfl, rfl⟩

-- A call that pays nobody and completes nothing.
theorem PaysAvailable.of_unpaid {s' : Editorial} (husers : s'.world.users = s.world.users)
    (hcompleted : ∀ u q, Completed u q s'.world → Completed u q s.world) :
    PaysAvailable call s s' where
  xp u := Or.inl (by rw [World.xpOf, husers]; rfl)
  completed u q h := Or.inl (hcompleted u q h)

theorem PaysAvailable.of_rejected {s' : Editorial} (hsame : s'.world = s.world) :
    PaysAvailable call s s' :=
  .of_unpaid (by rw [hsame]) fun _ _ hcompleted => hsame ▸ hcompleted

-- A call for a published quest that completes no other.
theorem PaysAvailable.of_available {s' : Editorial} {questId : Id}
    (hquest : call.questId = some questId) (h : Available questId s.world)
    (helsewhere : ∀ u q, q ≠ questId → (Completed u q s'.world ↔ Completed u q s.world)) :
    PaysAvailable call s s' where
  xp _ := Or.inr ⟨questId, hquest, h⟩
  completed u q hcompleted := by
    by_cases hq : q = questId
    · exact Or.inr (hq ▸ h)
    · exact Or.inl ((helsewhere u q hq).mp hcompleted)

theorem paysAvailable_of_asksAvailable (h : call.AsksAvailable s) :
    PaysAvailable call s (call.after host s) := by
  cases call with
  | update actor questId dto =>
      obtain ⟨husers, hcompletions⟩ := after_update host actor questId dto s
      refine .of_unpaid husers fun u q hcompleted => ?_
      rwa [Completed, hcompletions] at hcompleted
  | start userId questId =>
      have hstart := start_completesNothing userId questId s.world
      exact .of_unpaid hstart.1 hstart.2
  | complete userId questId proof =>
      by_cases havailable : Available questId s.world
      · exact .of_available rfl havailable fun _ _ => complete_elsewhere
      · have hrejected : (after host (.complete userId questId proof) s).world = s.world :=
          complete_rejected fun hfound => havailable (h hfound.1 hfound.2.1 hfound.2.2)
        exact .of_rejected hrejected
  | checkInLocation userId questId locationId body =>
      by_cases havailable : Available questId s.world
      · exact .of_available rfl havailable fun _ _ => checkInLocation_elsewhere
      · have hrejected : (after host (.checkInLocation userId questId locationId body) s).world =
            s.world := checkInLocation_rejected havailable
        exact .of_rejected hrejected
  | wait elapsed => exact .of_unpaid rfl fun _ _ hcompleted => hcompleted

theorem asksAvailable_of_paysAvailable (h : PaysAvailable call s (call.after host s)) :
    call.AsksAvailable s := by
  cases call with
  | complete userId questId proof =>
      intro hquest huser hopen
      have hdone : Completed userId questId (after host (.complete userId questId proof) s).world :=
        complete_goesThrough hquest huser hopen
      refine (h.completed userId questId hdone).resolve_left fun hcompleted => ?_
      obtain ⟨row, hrow, hstatus⟩ := hopen
      rw [Completed, hrow, Option.map_some] at hcompleted
      exact hstatus (Option.some.inj hcompleted)
  | _ => trivial

end EditedCall

-- Rewards only for published quests, all along any calls in any order, exactly if nobody
-- asks `complete` for a quest in progress that is not published any more.
theorem paysAvailable_iff_asksAvailable (host : Host) (calls : List EditedCall) (s : Editorial) :
    EachMeets (EditedCall.after host)
        (fun (call : EditedCall) s => call.PaysAvailable s (call.after host s)) calls s ↔
      EachMeets (EditedCall.after host) EditedCall.AsksAvailable calls s := by
  have hany : ∀ (_ : EditedCall) (_ : Editorial), True → True := fun _ _ _ => trivial
  refine eachMeets_congr hany (fun call s _ => ?_) trivial calls
  exact ⟨EditedCall.asksAvailable_of_paysAvailable, EditedCall.paysAvailable_of_asksAvailable⟩

-- The trail with its author.
def trailInEditing : Editorial where
  world := onTheTrail
  columns _ := { title := "Trail", description := "A trail to walk", authorId := some 2 }
  categories := Table.empty

-- The author archives the quest that the hiker is on, who completes it all the same.
theorem archived_pays : ¬EachMeets (EditedCall.after .plain)
    (fun (call : EditedCall) s => call.PaysAvailable s (call.after .plain s))
    [.start 1 1, .update ⟨2, .USER⟩ 1 { status := some .ARCHIVED }, .complete 1 1 none]
    trailInEditing := by
  let archived := oneByOne (EditedCall.after .plain)
    [.start 1 1, .update ⟨2, .USER⟩ 1 { status := some .ARCHIVED }] trailInEditing
  rintro ⟨_, _, hcomplete, _⟩
  have hpays : (EditedCall.complete 1 1 none).PaysAvailable archived
    ((EditedCall.complete 1 1 none).after .plain archived) := hcomplete
  have hdone : Completed 1 1 ((EditedCall.complete 1 1 none).after .plain archived).world := by
    decide +kernel
  have hbefore : ¬(Completed 1 1 archived.world ∨ Available 1 archived.world) := by
    decide +kernel
  exact hbefore (hpays.completed 1 1 hdone)

end SideQuest
