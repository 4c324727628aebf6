import SideQuest.Model.Editing
import SideQuest.Quests.Availability

-- What is paid for a quest that is edited while its players are at work: every
-- interleaving of `update` with their requests.

namespace SideQuest

open ReadCommitted

namespace QuestsService

-- The user and the quest that a write completes.
def finished : Write → Option (Id × Id)
  | .completionUpdate u q d => if d.status = some .COMPLETED then some (u, q) else none
  | .completionCreate row => if row.status = .COMPLETED then some row.key else none
  | _ => none

-- The user whose XP a write may change.
def paid : Write → Option Id
  | .userUpdate id d => if d.xp = .keep then none else some id
  | .userCreate row => some row.id
  | _ => none

def visits : Write → Bool
  | .checkInCreate _ => true
  | _ => false

section Writes

variable {w : World} {ws : List Write} {u q : Id}

theorem xpOf_apply_unpaid {wr : Write} (h : paid wr ≠ some u) : (w.apply wr).xpOf u = w.xpOf u := by
  cases wr with
  | userUpdate id d =>
      by_cases hd : d.xp = .keep
      · exact xpOf_keep hd
      · have hne : u ≠ id := fun he => h (by simp [paid, hd, he])
        simp only [World.xpOf, World.apply]
        rw [Table.find?_modify_ne _ _ d.id_apply hne]
  | userCreate row =>
      have hne : row.id ≠ u := fun he => h (congrArg some he)
      simp only [World.xpOf, World.apply]
      rw [Table.find?_insert_ne _ hne]
  | _ => rfl

theorem xpOf_view_unpaid (h : ∀ wr ∈ ws, paid wr ≠ some u) :
    (view Stmt w ws).xpOf u = w.xpOf u := by
  induction ws generalizing w with
  | nil => rfl
  | cons wr ws ih =>
      rw [view_cons, ih fun wr' hwr' => h wr' (List.mem_cons_of_mem _ hwr')]
      exact xpOf_apply_unpaid (h wr List.mem_cons_self)

theorem completed_of_apply {wr : Write} (hwr : finished wr ≠ some (u, q))
    (h : Completed u q (w.apply wr)) : Completed u q w := by
  cases wr with
  | completionUpdate u' q' d =>
      simp only [Completed, World.apply, Table.find?_modify] at h
      split at h
      · rename_i hkey
        obtain ⟨rfl, rfl⟩ := Prod.mk.inj hkey
        have hopen : d.status ≠ some .COMPLETED := fun hd => hwr (by simp [finished, hd])
        obtain ⟨_, hupdated, hstatus⟩ := Option.map_eq_some_iff.mp h
        obtain ⟨row, hrow, rfl⟩ := Option.map_eq_some_iff.mp hupdated
        rw [Completed, hrow, Option.map_some]
        cases hd : d.status with
        | none => simpa [QuestCompletionUpdate.apply, hd] using hstatus
        | some status =>
            have hcompleted : status = .COMPLETED := by
              simpa [QuestCompletionUpdate.apply, hd] using hstatus
            exact absurd (hcompleted ▸ hd) hopen
      · exact h
  | completionCreate row =>
      rcases Table.find?_insert_cases w.completions row (u, q) with hsame | ⟨hkey, _, hnew⟩
      · rwa [Completed, World.apply, hsame] at h
      · rw [Completed, World.apply, hnew] at h
        have hstatus : row.status = .COMPLETED := Option.some.inj h
        exact absurd (by simp [finished, hstatus, hkey]) hwr
  | _ => exact h

theorem completed_of_view (hws : ∀ wr ∈ ws, finished wr ≠ some (u, q))
    (h : Completed u q (view Stmt w ws)) : Completed u q w := by
  induction ws generalizing w with
  | nil => exact h
  | cons wr ws ih =>
      rw [view_cons] at h
      have hrest := ih (fun wr' hwr' => hws wr' (List.mem_cons_of_mem _ hwr')) h
      exact completed_of_apply (hws wr List.mem_cons_self) hrest

end Writes

-- Writes that complete only quests that the request has read, as published ones if it
-- checks in, and that pay only for these.
structure Accounted (seen : List (Seen Stmt)) (ws : List Write) : Prop where
  read : ∀ wr ∈ ws, ∀ u q, finished wr = some (u, q) → ∃ loaded,
    ⟨.questFindById q, some loaded⟩ ∈ seen ∧
      (ws.any visits = true → loaded.quest.status = .PUBLISHED)
  paid : ∀ wr ∈ ws, ∀ u, paid wr = some u → ∃ wr' ∈ ws, ∃ q, finished wr' = some (u, q)

theorem accounted_nil (seen : List (Seen Stmt)) : Accounted seen [] :=
  ⟨fun _ hwr => absurd hwr List.not_mem_nil, fun _ hwr => absurd hwr List.not_mem_nil⟩

theorem accounted_of_unpaid {seen : List (Seen Stmt)} {ws : List Write}
    (hfinished : ∀ wr ∈ ws, finished wr = none) (hpaid : ∀ wr ∈ ws, QuestsService.paid wr = none) :
    Accounted seen ws where
  read wr hwr u q h := by simp [hfinished wr hwr] at h
  paid wr hwr u h := by simp [hpaid wr hwr] at h

theorem accounted_emit (seen : List (Seen Stmt)) (e : AppEvent) : Accounted seen [.emit e] :=
  accounted_of_unpaid (by simp [finished]) (by simp [QuestsService.paid])

-- Any statement will do.
abbrev anyStmt (_ : List (Seen Stmt)) {β : Type} (_ : Stmt β) : Prop := True

abbrev Accounts {α : Type} (p : Request α) (seen : List (Seen Stmt)) : Prop :=
  Informed anyStmt Accounted (fun _ _ => True) p seen

section Requests

variable {host : Host} {userId questId : Id} {seen : List (Seen Stmt)}

theorem accounts_emit {α : Type} {e : AppEvent} {f : Unit → Request α}
    (h : ∀ seen, Accounts (f ()) seen) : Accounts (emit e >>= f) seen := by
  refine informed_call trivial fun _ _ ws he => ?_
  cases exec_emit he
  exact ⟨accounted_emit _ e, h _⟩

theorem accounts_when_emit {α : Type} {c : Prop} [Decidable c] {e : AppEvent}
    {f : Unit → Request α} (h : ∀ seen, Accounts (f ()) seen) :
    Accounts (Prog.when c (emit e) >>= f) seen := by
  unfold Prog.when
  split
  · exact accounts_emit h
  · exact h seen

theorem start_accounts : Accounts (start userId questId) seen := by
  unfold start
  refine informed_query (fun _ => rfl) trivial accounted_nil fun quest => ?_
  refine informed_expect fun quest _ => informed_require fun _ => ?_
  refine informed_query (fun _ => rfl) trivial accounted_nil fun now => ?_
  refine informed_call trivial fun _ _ ws he => ⟨?_, ?_⟩
  · rcases exec_completionUpsertStarted he with ⟨_, _, rfl⟩ | ⟨_, _, rfl⟩
    · exact accounted_of_unpaid (by simp [finished]) (by simp [QuestsService.paid])
    · exact accounted_of_unpaid (by simp [finished]) (by simp [QuestsService.paid])
  · exact ⟨trivial, fun _ _ _ he => by cases exec_emit he; exact ⟨accounted_emit _ _, trivial⟩⟩

-- What a finalization adds to the writes of its transaction.
theorem finalizeQuestCompletionTx_informed {Q : List (Seen Stmt) → List Write → FinalizeOutcome → Prop}
    {quest : QuestWithLocations} {proof : Option CompletionProof} {ws : List Write}
    (hQ : ∀ more row user now outcome, Q (more ++ seen) (ws ++
      [claimWrite userId questId quest proof row now, rewardWrite host userId quest user now])
        outcome) :
    TxInformed anyStmt Q (finalizeQuestCompletionTx host userId questId quest proof) seen ws := by
  unfold finalizeQuestCompletionTx
  refine txInformed_query (fun _ => rfl) trivial fun user => txInformed_expect fun user _ => ?_
  refine txInformed_query (fun _ => rfl) trivial fun now => ?_
  refine txInformed_query (fun _ => rfl) trivial fun row => txInformed_expect fun row _ => ?_
  refine txInformed_require fun _ => txInformed_call trivial fun _ _ _ he => ?_
  obtain ⟨_, rfl⟩ := exec_completionUpdate he
  refine txInformed_call trivial fun _ _ _ he => ?_
  obtain ⟨_, _, rfl, rfl⟩ := exec_userUpdate he
  rw [List.append_assoc]
  exact hQ [_, _, _, _, _] row user now _

-- A finalization is accounted for by the quest that its request has loaded.
theorem accounted_finalizing {quest : QuestWithLocations} (loaded : QuestWithLocations)
    {proof : Option CompletionProof} {row : QuestCompletion} {user : User} {now : Time}
    {ws : List Write}
    (hread : ⟨.questFindById questId, some loaded⟩ ∈ seen)
    (hfinished : ∀ wr ∈ ws, finished wr = none) (hpaid : ∀ wr ∈ ws, QuestsService.paid wr = none)
    (hvisits : ws.any visits = true → loaded.quest.status = .PUBLISHED) :
    Accounted seen (ws ++ [claimWrite userId questId quest proof row now,
      rewardWrite host userId quest user now]) := by
  have hclaim : finished (claimWrite userId questId quest proof row now) = some (userId, questId) := by
    simp [finished, completedData]
  constructor
  · intro wr hwr u q h
    have hq : q = questId := by
      rcases List.mem_append.mp hwr with hwr | hwr
      · simp [hfinished wr hwr] at h
      · simp only [List.mem_cons, List.not_mem_nil, or_false] at hwr
        rcases hwr with rfl | rfl
        · exact (Prod.mk.inj (Option.some.inj (hclaim.symm.trans h))).2.symm
        · cases h
    refine ⟨loaded, hq ▸ hread, fun hvisit => hvisits ?_⟩
    simpa [visits] using hvisit
  · intro wr hwr u h
    refine ⟨claimWrite userId questId quest proof row now, by simp, questId, ?_⟩
    rcases List.mem_append.mp hwr with hwr | hwr
    · simp [hpaid wr hwr] at h
    · simp only [List.mem_cons, List.not_mem_nil, or_false] at hwr
      rcases hwr with rfl | rfl
      · cases h
      · have hu : userId = u := by simpa [QuestsService.paid, rewardData] using h
        rw [hclaim, hu]

theorem complete_accounts {proof : Option CompletionProof} :
    Accounts (complete host userId questId proof) seen := by
  unfold complete
  refine informed_query (fun _ => rfl) trivial accounted_nil fun found => ?_
  refine informed_expect fun loaded hfound => ?_
  refine informed_query (fun _ => rfl) trivial accounted_nil fun active => ?_
  refine informed_expect fun active _ => informed_require fun _ => ?_
  refine informed_transaction (finalizeQuestCompletionTx_informed fun more row user now _ => ⟨?_, ?_⟩)
  · refine accounted_finalizing loaded ?_ (by simp) (by simp) (by simp)
    rw [hfound]
    exact List.mem_append_right _ (List.mem_cons_of_mem _ List.mem_cons_self)
  · exact accounts_emit fun _ => accounts_when_emit fun _ => trivial

theorem checkInTx_informed {Q : List (Seen Stmt) → List Write → CheckInTxOutcome → Prop}
    {locationId : Id} {body : QuestCheckInBody} {loaded : QuestWithLocations}
    (hread : ⟨.questFindById questId, some loaded⟩ ∈ seen)
    (hpublished : loaded.quest.status = .PUBLISHED)
    (hQ : ∀ seen ws outcome, Accounted seen ws → Q seen ws outcome) :
    TxInformed anyStmt Q (checkInTx host userId questId locationId body loaded) seen [] := by
  unfold checkInTx
  refine txInformed_query (fun _ => rfl) trivial fun dup => ?_
  split
  · refine txInformed_query (fun _ => rfl) trivial fun row => ?_
    exact hQ _ [] _ (accounted_nil _)
  · refine txInformed_call trivial fun _ _ _ he => ?_
    obtain ⟨_, _, rfl⟩ := exec_checkInCreate he
    refine txInformed_call trivial fun _ _ _ he => ?_
    obtain ⟨_, rfl⟩ := exec_completionUpdate he
    refine txInformed_call trivial fun _ _ _ he => ?_
    obtain ⟨_, _, rfl, rfl⟩ := exec_userUpdate he
    refine txInformed_query (fun _ => rfl) trivial fun count => ?_
    split
    · refine TxInformed.bind (finalizeQuestCompletionTx_informed fun more row user now _ => ?_)
      refine hQ _ _ _ (accounted_finalizing loaded ?_ (by simp [finished])
        (by simp [QuestsService.paid]) fun _ => hpublished)
      simp [hread]
    · exact hQ _ _ _ (accounted_of_unpaid (by simp [finished]) (by simp [QuestsService.paid]))

theorem checkInLocation_accounts {locationId : Id} {body : QuestCheckInBody} :
    Accounts (checkInLocation host userId questId locationId body) seen := by
  unfold checkInLocation
  refine informed_query (fun _ => rfl) trivial accounted_nil fun found => ?_
  refine informed_expect fun loaded hfound => informed_require fun hpublished => ?_
  refine informed_query (fun _ => rfl) trivial accounted_nil fun location => ?_
  refine informed_expect fun location _ => informed_require fun _ => ?_
  refine informed_query (fun _ => rfl) trivial accounted_nil fun existing => ?_
  split
  · exact informed_query (fun _ => rfl) trivial accounted_nil fun row => trivial
  · unfold checkInNew
    refine informed_query (fun _ => rfl) trivial accounted_nil fun active => ?_
    refine informed_expect fun active _ => informed_require fun _ => informed_require fun _ => ?_
    refine informed_transaction (checkInTx_informed ?_ hpublished fun seen ws outcome h => ⟨h, ?_⟩)
    · simp [hfound]
    · have htail (seen : List (Seen Stmt)) : Accounts (do
          Prog.when (outcome.httpStatus = 201) (emit (.questLocationCheckedIn userId questId locationId))
          return ⟨outcome.httpStatus, true, outcome.questCompleted⟩ : Request CheckInOutcome) seen :=
        accounts_when_emit fun _ => trivial
      cases outcome.fin with
      | some fin => exact accounts_emit fun _ => accounts_when_emit fun _ => htail _
      | none => exact htail _

theorem QuestRequest.accounts {p : Request Unit} (hp : QuestRequest host userId questId p) :
    Accounts p [] := by
  cases hp with
  | start => exact start_accounts
  | complete proof => exact informed_void complete_accounts
  | checkInLocation locationId body => exact informed_void checkInLocation_accounts

end Requests

end QuestsService

namespace Editing

open QuestsService (Completed Available QuestRequest Accounted)

-- The users and the quests that a commit completes.
def finishedBy (ws : List Write) : List (Id × Id) :=
  ws.filterMap fun
    | .base wr => QuestsService.finished wr
    | .questUpdate _ => none

def visits : Write → Bool
  | .base wr => QuestsService.visits wr
  | .questUpdate _ => false

-- A commit that completes and pays for nothing but quests that are published when it comes.
structure PaysPublished (s : Editorial) (ws : List Write) : Prop where
  available : ∀ u q, (u, q) ∈ finishedBy ws → Available q s.world
  xp : ∀ u, (view Stmt s ws).world.xpOf u = s.world.xpOf u ∨ ∃ q, (u, q) ∈ finishedBy ws
  completed : ∀ u q, Completed u q (view Stmt s ws).world →
    Completed u q s.world ∨ (u, q) ∈ finishedBy ws

-- A quest that was published when the request read it still is, and of the others none is
-- completed except by a check-in, which has its own check.
def stillPublished (questId : Id) (checksIn : Bool) (s : Editorial) : Seen Stmt → Bool
  | ⟨.base (.questFindById id), some loaded⟩ => id ≠ questId ∨
      if loaded.quest.status = .PUBLISHED then Available questId s.world else checksIn
  | _ => true

def paysPublished : RaceGuard Stmt Editorial Write := fun seen move s =>
  match move with
  | .commit ws => (finishedBy ws).all fun finished =>
      seen.all (stillPublished finished.2 (ws.any visits) s)
  | _ => true

def publishedContract : RaceContract Stmt Editorial Write where
  inv _ := True
  guar _ _ := True
  commit := PaysPublished
  guard := paysPublished
  guar_refl _ := trivial
  guar_trans _ _ := trivial
  commit_nil _ := ⟨fun _ _ h => absurd h List.not_mem_nil, fun _ => Or.inl rfl, fun _ _ h => Or.inl h⟩

section Commits

variable {s : Editorial}

theorem finishedBy_base (ws : List SideQuest.Write) :
    finishedBy (ws.map .base) = ws.filterMap QuestsService.finished := by
  simp only [finishedBy, List.filterMap_map]
  rfl

theorem any_visits_base (ws : List SideQuest.Write) :
    (ws.map Write.base).any visits = ws.any QuestsService.visits := by
  rw [List.any_map]
  rfl

theorem paysPublished_of_accounted {seen : List (Seen SideQuest.Stmt)} {ws : List SideQuest.Write}
    (h : Accounted seen ws)
    (hguard : paysPublished (seen.map players.read) (.commit (ws.map players.write)) s = true) :
    PaysPublished s (ws.map players.write) := by
  have hview : (view Stmt s (ws.map players.write)).world = view SideQuest.Stmt s.world ws := by
    rw [players.view_write]
    rfl
  have hfinished : finishedBy (ws.map players.write) = ws.filterMap QuestsService.finished :=
    finishedBy_base ws
  refine ⟨fun u q hmem => ?_, fun u => ?_, fun u q hcompleted => ?_⟩
  · have hread := List.all_eq_true.mp (List.all_eq_true.mp hguard _ hmem)
    rw [hfinished] at hmem
    obtain ⟨wr, hwr, hq⟩ := List.mem_filterMap.mp hmem
    obtain ⟨loaded, hloaded, hvisits⟩ := h.read wr hwr u q hq
    have hstill := (of_decide_eq_true (hread _ (List.mem_map_of_mem hloaded))).resolve_left
      fun hne => hne rfl
    split at hstill
    · exact hstill
    · rename_i hunpublished
      have hvisit : ws.any QuestsService.visits = true := (any_visits_base ws).symm.trans hstill
      exact absurd (hvisits hvisit) hunpublished
  · rw [hview, hfinished]
    by_cases hpaid : ∃ wr ∈ ws, QuestsService.paid wr = some u
    · obtain ⟨wr, hwr, hu⟩ := hpaid
      obtain ⟨wr', hwr', q, hq⟩ := h.paid wr hwr u hu
      exact Or.inr ⟨q, List.mem_filterMap.mpr ⟨wr', hwr', hq⟩⟩
    · exact Or.inl (QuestsService.xpOf_view_unpaid fun wr hwr hu => hpaid ⟨wr, hwr, hu⟩)
  · rw [hview] at hcompleted
    rw [hfinished]
    by_cases hmem : (u, q) ∈ ws.filterMap QuestsService.finished
    · exact Or.inr hmem
    · refine Or.inl (QuestsService.completed_of_view (fun wr hwr hq => ?_) hcompleted)
      exact hmem (List.mem_filterMap.mpr ⟨wr, hwr, hq⟩)

theorem paysPublished_questUpdate (edit : QuestEdit) : PaysPublished s [.questUpdate edit] where
  available _ _ h := absurd h List.not_mem_nil
  xp _ := Or.inl rfl
  completed _ _ h := Or.inl h

end Commits

-- The edits of all authors and curators, and the requests of all players.
inductive EditedRequest (host : Host) : Request Unit → Prop where
  | update (actor : QuestsService.Actor) (questId : Id) (dto : QuestsService.UpdateQuestDto) :
      EditedRequest host (update actor questId dto).void
  | player {userId questId : Id} {p : SideQuest.Request Unit}
      (hp : QuestRequest host userId questId p) : EditedRequest host (players.prog p)

section Requests

variable {me : ℕ} {st : Store Editorial Write}

theorem commits_any (st : Store Editorial Write) (ws : List Write) :
    publishedContract.rules.Commits me st ws := ⟨trivial, trivial⟩

theorem wp_update {actor : QuestsService.Actor} {questId : Id} {dto : QuestsService.UpdateQuestDto}
    {seen : List (Seen Stmt)} :
    publishedContract.wp me (fun _ _ _ => True) (update actor questId dto) seen st := by
  have hstore (publishedAt : Option Time) (seen : List (Seen Stmt)) (st : Store Editorial Write) :
      publishedContract.wp (ε := ApiError) me (fun _ _ _ => True)
        (Prog.call (.edit (.questUpdate questId dto publishedAt))) seen st := by
    refine fun st' _ _ b ws he _ => ⟨⟨commits_any st' ws, ?_⟩, fun _ _ => trivial⟩
    simp only [Backend.exec, Stmt.exec, EditStmt.exec] at he
    split at he
    · cases he
    · split at he
      · cases he
      · cases he
        exact paysPublished_questUpdate _
  unfold update
  refine RaceContract.wp_query (fun _ => rfl) fun st₁ _ => RaceContract.wp_expect fun found _ => ?_
  split
  · trivial
  · refine RaceContract.wp_bind ?_
    unfold publishedAtOf
    split
    · exact RaceContract.wp_query (fun _ => rfl) fun st₂ _ _ _ => hstore _ _ _
    · exact fun _ _ => hstore _ _ _

theorem EditedRequest.wp {host : Host} {p : Request Unit} (hp : EditedRequest host p) :
    publishedContract.wp me (fun _ _ _ => True) p [] st := by
  cases hp with
  | update actor questId dto => exact RaceContract.wp_void wp_update
  | player hp =>
      exact players.wp_of_informed (fun st' ws _ => commits_any st' ws)
        (fun hfine hguard => paysPublished_of_accounted hfine hguard) hp.accounts

end Requests

end Editing

-- The request that answers a call.
def EditedCall.request (host : Host) : EditedCall → Option (Editing.Request Unit)
  | .update actor questId dto => some (Editing.update actor questId dto).void
  | .start userId questId => some (Editing.players.prog (QuestsService.start userId questId))
  | .complete userId questId proof =>
      some (Editing.players.prog (QuestsService.complete host userId questId proof).void)
  | .checkInLocation userId questId locationId body =>
      some (Editing.players.prog
        (QuestsService.checkInLocation host userId questId locationId body).void)
  | .wait _ => none

-- A call on its own is one of the requests, with nobody in between.
theorem EditedCall.after_eq_alone {host : Host} {call : EditedCall} {p : Editing.Request Unit}
    (hp : call.request host = some p) :
    Editing.EditedRequest host p ∧ ∀ s, call.after host s = (p.alone s).2 := by
  cases call with
  | update actor questId dto =>
      cases hp
      refine ⟨.update actor questId dto, fun s => ?_⟩
      rw [Prog.alone_void, Editing.update_alone, EditedCall.after]
      cases QuestsService.update actor questId dto s <;> rfl
  | start userId questId =>
      cases hp
      exact ⟨.player .start, fun s => by rw [Editing.players.alone_prog]; rfl⟩
  | complete userId questId proof =>
      cases hp
      refine ⟨.player (.complete proof), fun s => ?_⟩
      rw [Editing.players.alone_prog, Prog.alone_void]
      rfl
  | checkInLocation userId questId locationId body =>
      cases hp
      refine ⟨.player (.checkInLocation locationId body), fun s => ?_⟩
      rw [Editing.players.alone_prog, Prog.alone_void]
      rfl
  | wait elapsed => cases hp

-- Every commit completes and pays for published quests alone, as long as no quest is taken
-- back between a request's read of it and the commit, and `complete` finishes none that it
-- has read as not published. For calls one at a time this is exactly what it takes.
theorem paysPublished_of_reaches (host : Host) (s : Editorial) :
    (∀ r : Recalling Editing.Stmt Editorial Editing.Write ApiError,
      Recalling.Reaches (Editing.EditedRequest host) Editing.paysPublished (Recalling.init s) r →
        ∀ i r', r.meets Editing.paysPublished i = true → r.next i = some r' →
          r'.store = r.store ∨ ∃ j ws, r'.store = r.store.commit Editing.Stmt j ws ∧
            Editing.PaysPublished r.store.db ws) ∧
    ∀ calls : List EditedCall,
      EachMeets (EditedCall.after host)
          (fun (call : EditedCall) s => call.PaysAvailable s (call.after host s)) calls s ↔
        EachMeets (EditedCall.after host) EditedCall.AsksAvailable calls s := by
  refine ⟨fun r h i r' hmeets hnext => ?_, fun calls => paysAvailable_iff_asksAvailable host calls s⟩
  have hsafe := (Recalling.Reaches.safe (C := Editing.publishedContract)
    (fun p hp me st _ => hp.wp) (fun _ _ _ => ⟨trivial, trivial⟩)
    (Recalling.init_safe trivial) h).1
  exact (hsafe.next hmeets hnext).2.2

-- The author archives the trail while the hiker checks in at its only waypoint.
def archiving : Editing.Request Unit :=
  (Editing.update ⟨2, .USER⟩ 1 { status := some .ARCHIVED }).void

def walking : Editing.Request Unit := Editing.players.prog (QuestsService.visit 1)

theorem archiving_walking : ∀ p ∈ [archiving, walking], Editing.EditedRequest .plain p := by
  simp only [List.forall_mem_cons]
  exact ⟨.update _ _ _, .player (.checkInLocation 1 _), by simp⟩

-- The check-in is paid for when its commit comes before the update, which has read by then.
theorem paysPublished_then_archived :
    ∃ r r' : Recalling Editing.Stmt Editorial Editing.Write ApiError,
      (r'.store = r.store ∨ ∃ j ws, r'.store = r.store.commit Editing.Stmt j ws ∧
        Editing.PaysPublished r.store.db ws) ∧
      r.store.db.world.xpOf 1 = 0 ∧ r'.store.db.world.xpOf 1 = 100 := by
  obtain ⟨r, hr, hobs⟩ := Recalling.exists_reaches_of_play (Editing.EditedRequest .plain)
    Editing.paysPublished (Recalling.init trailInEditing)
    (System.interleave [archiving, walking] [0, 1, 1, 1, 1, 1, 1, 1, 1, 1, 1, 1, 1, 1, 1, 1])
    (fun r => (r.meets Editing.paysPublished 1, r.store.db.world.xpOf 1,
      (r.next 1).map fun r' => r'.store.db.world.xpOf 1)) (true, 0, some 100)
    (fun p hp => archiving_walking p ((System.spawn_mem_interleave).mp hp)) (by decide +kernel)
  simp only [Prod.mk.injEq, Option.map_eq_some_iff] at hobs
  obtain ⟨hmeets, hbefore, r', hnext, hafter⟩ := hobs
  exact ⟨r, r', (paysPublished_of_reaches .plain trailInEditing).1 r hr 1 r' hmeets hnext,
    hbefore, hafter⟩

-- It is paid for all the same when the update comes between its read and its commit.
theorem archived_while_walking : ∃ r r' : Recalling Editing.Stmt Editorial Editing.Write ApiError,
    Recalling.Reaches (Editing.EditedRequest .plain) RaceGuard.none (Recalling.init trailInEditing) r ∧
      r.next 1 = some r' ∧ ¬QuestsService.Available 1 r.store.db.world ∧
        r.store.db.world.xpOf 1 = 0 ∧ r'.store.db.world.xpOf 1 = 100 := by
  obtain ⟨r, hr, hobs⟩ := Recalling.exists_reaches_of_play (Editing.EditedRequest .plain)
    RaceGuard.none (Recalling.init trailInEditing)
    (System.interleave [archiving, walking] [1, 0, 0, 1, 1, 1, 1, 1, 1, 1, 1, 1, 1, 1, 1, 1, 1])
    (fun r => (decide (QuestsService.Available 1 r.store.db.world), r.store.db.world.xpOf 1,
      (r.next 1).map fun r' => r'.store.db.world.xpOf 1)) (false, 0, some 100)
    (fun p hp => archiving_walking p ((System.spawn_mem_interleave).mp hp)) (by decide +kernel)
  simp only [Prod.mk.injEq, Option.map_eq_some_iff, decide_eq_false_iff_not] at hobs
  obtain ⟨harchived, hbefore, r', hnext, hafter⟩ := hobs
  exact ⟨r, r', hr, hnext, harchived, hbefore, hafter⟩

end SideQuest
