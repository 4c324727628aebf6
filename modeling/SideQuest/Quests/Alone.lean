import SideQuest.Quests.OncePerStart
import SideQuest.Quests.Waypoints
import SideQuest.Lib.Alone

-- What a request for a quest does when nobody interferes.

namespace SideQuest

open ReadCommitted

namespace QuestsService

def Started (userId questId : Id) (w : World) : Prop :=
  (w.completions.find? (userId, questId)).map QuestCompletion.status = some .STARTED

instance (userId questId : Id) (w : World) : Decidable (Started userId questId w) :=
  inferInstanceAs (Decidable (_ = _))

-- A waypoint of a published quest as its user may check in there.
structure Open (host : Host) (w : World) (userId questId : Id) (l : QuestLocation)
    (body : QuestCheckInBody) : Prop where
  published : (w.quests.find? questId).map Quest.status = some .PUBLISHED
  located : l ∈ w.locationsOf questId
  inRange : host.haversineMeters body.position l.coordinates ≤ l.radiusM
  unvisited : w.checkIns.find? (userId, l.id) = none
  started : Started userId questId w
  user_found : (w.users.find? userId).isSome

variable {host : Host} {w : World} {userId questId : Id} {l : QuestLocation}
  {body : QuestCheckInBody} {quest : QuestWithLocations}

-- What a check-in writes before it counts.
def checkInWrites (w : World) (userId questId locationId : Id) (body : QuestCheckInBody) :
    List Write :=
  [.checkInCreate ⟨userId, questId, locationId, body.position.latitude, body.position.longitude,
      body.accuracyM, w.clock⟩,
    .completionUpdate userId questId { checkedInLocationIds := some locationId },
    .userUpdate userId { placesVisited := .increment 1 }]

theorem visitsAt_checkInWrites (h : w.checkIns.find? (userId, l.id) = none) :
    (view Stmt w (checkInWrites w userId questId l.id body)).visitsAt userId questId =
      w.visitsAt userId questId ++ [l.id] := by
  let row : QuestLocationCheckIn := ⟨userId, questId, l.id, body.position.latitude,
    body.position.longitude, body.accuracyM, w.clock⟩
  have hvisits : (w.apply (.checkInCreate row)).visitsAt userId questId =
      w.visitsAt userId questId ++ _ := visitsAt_checkInCreate h
  rwa [if_pos ⟨rfl, rfl⟩] at hvisits

theorem finalizeQuestCompletionTx_alone {proof : Option CompletionProof} (ws : List Write)
    {user : User} {row : QuestCompletion}
    (huser : (view Stmt w ws).users.find? userId = some user)
    (hrow : (view Stmt w ws).completions.find? (userId, questId) = some row)
    (hopen : row.status ≠ .COMPLETED) {now : Time} (hnow : (view Stmt w ws).clock = now) :
    (finalizeQuestCompletionTx host userId questId quest proof).alone ws w =
      .ok (⟨quest.quest.xpReward, levelFromXp user.xp,
          levelFromXp (user.xp + quest.quest.xpReward),
          computeStreak user.streakDays user.lastQuestCompletedAt now, now⟩,
        ws ++ [claimWrite userId questId quest proof row now,
          rewardWrite host userId quest user now]) := by
  have hfind : Stmt.exec (.userFindUnique userId) (view Stmt w ws) = .ok (some user, []) := by
    rw [Stmt.exec, huser, ask]
  have hclock : Stmt.exec .now (view Stmt w ws) = .ok (now, []) := by rw [Stmt.exec, hnow, ask]
  have hcompletion : Stmt.exec (.completionFindUnique userId questId) (view Stmt w ws) =
      .ok (some row, []) := by rw [Stmt.exec, hrow, ask]
  have hclaim : Stmt.exec (.completionUpdate userId questId (completedData quest.quest proof row now))
      (view Stmt w ws) = .ok ((), [claimWrite userId questId quest proof row now]) := by
    simp only [Stmt.exec, hrow]
  have hreward : Stmt.exec (.userUpdate userId (rewardData host quest user now))
      (view Stmt w (ws ++ [claimWrite userId questId quest proof row now])) =
        .ok ((rewardData host quest user now).apply user,
          [rewardWrite host userId quest user now]) := by
    simp [Stmt.exec, view_append, World.apply, huser]
  unfold finalizeQuestCompletionTx
  refine (Tx.alone_query hfind).trans ?_
  refine (Tx.alone_expect rfl).trans ?_
  refine (Tx.alone_query hclock).trans ?_
  refine (Tx.alone_query hcompletion).trans ?_
  refine (Tx.alone_expect rfl).trans ?_
  refine (Tx.alone_require hopen).trans ?_
  refine (Tx.alone_call hclaim).trans ?_
  refine (Tx.alone_call hreward).trans ?_
  rw [List.append_assoc]
  rfl

-- A finalization that goes through has found its rows.
theorem finalizeQuestCompletionTx_found {proof : Option CompletionProof} :
    Tx.Returns (fun _ _ => ∃ user row, w.users.find? userId = some user ∧
      w.completions.find? (userId, questId) = some row ∧ row.status ≠ .COMPLETED)
      (finalizeQuestCompletionTx host userId questId quest proof) [] w := by
  unfold finalizeQuestCompletionTx
  refine Tx.returns_query (fun _ => rfl) (Tx.returns_expect fun user huser => ?_)
  refine Tx.returns_query (fun _ => rfl) (Tx.returns_query (fun _ => rfl) ?_)
  refine Tx.returns_expect fun row hrow => Tx.returns_require fun hopen => ?_
  exact fun _ _ _ => ⟨user, row, huser, hrow, hopen⟩

-- What is announced once the row `user` has been paid for the quest.
def finishEvents (userId questId : Id) (quest : QuestWithLocations) (user : User) (now : Time) :
    List AppEvent :=
  .questCompleted userId questId quest.quest.xpReward now ::
    levelUps userId (levelFromXp user.xp) (levelFromXp (user.xp + quest.quest.xpReward))

-- `complete` fails without a trace or finalizes.
theorem complete_cases (host : Host) (userId questId : Id) (proof : Option CompletionProof)
    (w : World) : Prog.Ends (fun answer w' => (answer.isOk = false ∧ w' = w) ∨
      answer.isOk = true ∧ ∃ (quest : QuestWithLocations) (user : User) (row : QuestCompletion),
        w.quests.find? questId = some quest.quest ∧ w.users.find? userId = some user ∧
          w' = view Stmt w ([claimWrite userId questId quest proof row w.clock,
            rewardWrite host userId quest user w.clock] ++
              (finishEvents userId questId quest user w.clock).map .emit))
      (complete host userId questId proof) w := by
  unfold complete
  refine Prog.ends_query (fun _ => rfl)
    (Prog.ends_expect (Or.inl ⟨rfl, rfl⟩) fun quest hquest => ?_)
  refine Prog.ends_query (fun _ => rfl) (Prog.ends_expect (Or.inl ⟨rfl, rfl⟩) fun active _ => ?_)
  refine Prog.ends_require (Or.inl ⟨rfl, rfl⟩) fun _ => ?_
  refine Prog.ends_transaction (fun _ => Or.inl ⟨rfl, rfl⟩) fun fin ws hrun => ?_
  obtain ⟨user, row, huser, hrow, hopen⟩ := finalizeQuestCompletionTx_found fin ws hrun
  have hfin : (finalizeQuestCompletionTx host userId questId quest proof).alone [] w =
      .ok (_, [claimWrite userId questId quest proof row w.clock,
        rewardWrite host userId quest user w.clock]) :=
    finalizeQuestCompletionTx_alone [] huser hrow hopen rfl
  rw [hrun] at hfin
  obtain ⟨rfl, rfl⟩ := Prod.mk.inj (Except.ok.inj hfin)
  refine Prog.ends_bind alone_emit (Prog.ends_bind alone_when_levelUp ?_)
  obtain ⟨found, hfound, rfl⟩ := Option.map_eq_some_iff.mp hquest
  refine Or.inr ⟨rfl, ⟨found, w.locationsOf questId⟩, user, row, hfound, huser, ?_⟩
  rw [finishEvents, List.map_cons, view_append, view_cons]
  rfl

theorem start_alone {quest : Quest} {row : QuestCompletion}
    (hquest : w.quests.find? questId = some quest) (hpublished : quest.status = .PUBLISHED)
    (hrow : w.completions.find? (userId, questId) = some row) :
    ((start userId questId).alone w).2 = (w.apply (.completionUpdate userId questId
      { status := some .STARTED, startedAt := some w.clock })).apply
        (.emit (.questStarted userId questId)) := by
  simp [start, Prog.call, Prog.alone, Stmt.exec, ask, Prog.expect, Prog.require, hquest, hpublished,
    hrow]

section CheckIn

variable (h : Open host w userId questId l body)

include h

-- The writes of a check-in find their rows.
theorem checkInTx_alone : (checkInTx host userId questId l.id body quest).alone [] w =
    (if (w.visitsAt userId questId).length + 1 ≥ quest.locations.length then do
      let fin ← finalizeQuestCompletionTx host userId questId quest (some .checkIns)
      return ⟨201, true, some fin⟩
    else return ⟨201, false, none⟩ : InTransaction CheckInTxOutcome).alone
      (checkInWrites w userId questId l.id body) w := by
  obtain ⟨row, hrow, _⟩ := Option.map_eq_some_iff.mp h.started
  obtain ⟨user, huser⟩ := Option.isSome_iff_exists.mp h.user_found
  obtain ⟨_, hquest, _⟩ := Option.map_eq_some_iff.mp h.published
  have hlocation := (World.mem_locationsOf.mp h.located).1
  have hcount : (view Stmt w (checkInWrites w userId questId l.id body)).checkIns.count
      (fun c => c.userId = userId ∧ c.questId = questId) =
        (w.visitsAt userId questId).length + 1 := by
    have hvisits : (view Stmt w (checkInWrites w userId questId l.id body)).visitsAt userId questId =
        w.visitsAt userId questId ++ [l.id] := visitsAt_checkInWrites h.unvisited
    have hlength := congrArg List.length hvisits
    rw [List.length_append, List.length_singleton, World.visitsAt, List.length_map] at hlength
    rw [Table.count, List.countP_eq_length_filter, hlength]
  have hdup : Stmt.exec (.checkInFindUnique userId l.id) w = .ok (none, []) := by
    rw [Stmt.exec, h.unvisited, ask]
  have hcreate : Stmt.exec (.checkInCreate userId questId l.id body.position body.accuracyM) w =
      .ok ((), (checkInWrites w userId questId l.id body).take 1) := by
    simp [Stmt.exec, checkInWrites, h.unvisited, huser, hquest, hlocation]
  have hpush : Stmt.exec (.completionUpdate userId questId { checkedInLocationIds := some l.id })
      (view Stmt w ((checkInWrites w userId questId l.id body).take 1)) = .ok ((),
        [.completionUpdate userId questId { checkedInLocationIds := some l.id }]) := by
    simp [Stmt.exec, checkInWrites, World.apply, hrow]
  have hvisit : Stmt.exec (.userUpdate userId { placesVisited := .increment 1 })
      (view Stmt w ((checkInWrites w userId questId l.id body).take 2)) =
        .ok (UserUpdate.apply { placesVisited := .increment 1 } user,
          [.userUpdate userId { placesVisited := .increment 1 }]) := by
    simp [Stmt.exec, checkInWrites, World.apply, huser]
  have hcounted : Stmt.exec (.checkInCount userId questId)
      (view Stmt w (checkInWrites w userId questId l.id body)) =
        .ok ((w.visitsAt userId questId).length + 1, []) := by
    rw [Stmt.exec, hcount, ask]
  unfold checkInTx
  refine (Tx.alone_query hdup).trans ?_
  refine (Tx.alone_call hcreate).trans ?_
  refine (Tx.alone_call hpush).trans ?_
  refine (Tx.alone_call hvisit).trans ?_
  exact Tx.alone_query hcounted

theorem checkInLocation_alone : ∃ quest, w.quests.find? questId = some quest ∧
    (checkInLocation host userId questId l.id body).alone w =
      (checkInNew host userId questId l.id body ⟨quest, w.locationsOf questId⟩).alone w := by
  obtain ⟨quest, hquest, hpublished⟩ := Option.map_eq_some_iff.mp h.published
  obtain ⟨hlocation, hof⟩ := World.mem_locationsOf.mp h.located
  refine ⟨quest, hquest, ?_⟩
  have hfind : Stmt.exec (.questFindById questId) w =
      .ok (some ⟨quest, w.locationsOf questId⟩, []) := by rw [Stmt.exec, hquest]; rfl
  have hfirst : Stmt.exec (.questLocationFindFirst l.id questId) w = .ok (some l, []) := by
    simp [Stmt.exec, ask, hlocation, hof]
  have hdup : Stmt.exec (.checkInFindUnique userId l.id) w = .ok (none, []) := by
    rw [Stmt.exec, h.unvisited, ask]
  unfold checkInLocation
  refine (Prog.alone_query hfind).trans ?_
  refine (Prog.alone_expect rfl).trans ?_
  refine (Prog.alone_require hpublished).trans ?_
  refine (Prog.alone_query hfirst).trans ?_
  refine (Prog.alone_expect rfl).trans ?_
  refine (Prog.alone_require h.inRange).trans ?_
  refine (Prog.alone_query hdup).trans ?_
  rfl

-- A check-in after which others are missing.
theorem checkInLocation_alone_step
    (hcount : (w.visitsAt userId questId).length + 1 < (w.locationsOf questId).length) :
    (checkInLocation host userId questId l.id body).alone w = (.ok ⟨201, true, false⟩,
      view Stmt w (checkInWrites w userId questId l.id body ++
        [.emit (.questLocationCheckedIn userId questId l.id)])) := by
  obtain ⟨quest, _, hnew⟩ := checkInLocation_alone h
  obtain ⟨row, hrow, hstarted⟩ := Option.map_eq_some_iff.mp h.started
  have hactive : Stmt.exec (.completionFindUnique userId questId) w = .ok (some row, []) := by
    rw [Stmt.exec, hrow, ask]
  have htx : (checkInTx host userId questId l.id body ⟨quest, w.locationsOf questId⟩).alone [] w =
      .ok (⟨201, false, none⟩, checkInWrites w userId questId l.id body) := by
    rw [checkInTx_alone h, if_neg (Nat.not_le_of_lt hcount)]
    rfl
  rw [hnew, view_append]
  unfold checkInNew
  refine (Prog.alone_query hactive).trans ?_
  refine (Prog.alone_expect rfl).trans ?_
  refine (Prog.alone_require hstarted).trans ?_
  refine (Prog.alone_require (Nat.ne_of_gt (Nat.zero_lt_of_lt hcount))).trans ?_
  exact Prog.alone_transaction htx

-- The last check-in.
theorem checkInLocation_alone_last
    (hcount : (w.locationsOf questId).length ≤ (w.visitsAt userId questId).length + 1) :
    ∃ (quest : Quest) (row : QuestCompletion) (user : User),
      w.quests.find? questId = some quest ∧ w.users.find? userId = some user ∧
      (checkInLocation host userId questId l.id body).alone w = (.ok ⟨201, true, true⟩,
        view Stmt w (checkInWrites w userId questId l.id body ++
          [claimWrite userId questId ⟨quest, w.locationsOf questId⟩ (some .checkIns) row w.clock,
            rewardWrite host userId ⟨quest, w.locationsOf questId⟩
              (UserUpdate.apply { placesVisited := .increment 1 } user) w.clock] ++
                (finishEvents userId questId ⟨quest, w.locationsOf questId⟩ user w.clock ++
                  [AppEvent.questLocationCheckedIn userId questId l.id]).map .emit)) := by
  obtain ⟨quest, hquest, hnew⟩ := checkInLocation_alone h
  obtain ⟨row, hrow, hstarted⟩ := Option.map_eq_some_iff.mp h.started
  obtain ⟨user, huser⟩ := Option.isSome_iff_exists.mp h.user_found
  have hpos : (w.locationsOf questId).length ≠ 0 :=
    (List.length_pos_of_mem h.located).ne'
  have hactive : Stmt.exec (.completionFindUnique userId questId) w = .ok (some row, []) := by
    rw [Stmt.exec, hrow, ask]
  let row' := QuestCompletionUpdate.apply { checkedInLocationIds := some l.id } row
  let user' := UserUpdate.apply { placesVisited := .increment 1 } user
  have huser' : (view Stmt w (checkInWrites w userId questId l.id body)).users.find? userId =
      some user' := by simp [checkInWrites, World.apply, huser, user']
  have hrow' : (view Stmt w (checkInWrites w userId questId l.id body)).completions.find?
      (userId, questId) = some row' := by simp [checkInWrites, World.apply, hrow, row']
  have hopen : row'.status ≠ .COMPLETED := by
    have hsame : row'.status = row.status := rfl
    rw [hsame, hstarted]
    exact fun he => by cases he
  let loaded : QuestWithLocations := ⟨quest, w.locationsOf questId⟩
  let fin : FinalizeOutcome := ⟨quest.xpReward, levelFromXp user'.xp,
    levelFromXp (user'.xp + quest.xpReward),
    computeStreak user'.streakDays user'.lastQuestCompletedAt w.clock, w.clock⟩
  have htx : (checkInTx host userId questId l.id body loaded).alone [] w =
      .ok (⟨201, true, some fin⟩, checkInWrites w userId questId l.id body ++
        [claimWrite userId questId loaded (some .checkIns) row' w.clock,
          rewardWrite host userId loaded user' w.clock]) := by
    rw [checkInTx_alone h, if_pos hcount]
    exact Tx.alone_bind (finalizeQuestCompletionTx_alone _ huser' hrow' hopen rfl)
  refine ⟨quest, row', user, hquest, huser, ?_⟩
  rw [hnew]
  unfold checkInNew
  refine (Prog.alone_query hactive).trans ?_
  refine (Prog.alone_expect rfl).trans ?_
  refine (Prog.alone_require hstarted).trans ?_
  refine (Prog.alone_require hpos).trans ?_
  refine (Prog.alone_transaction htx).trans ?_
  refine (Prog.alone_bind alone_emit).trans ?_
  refine (Prog.alone_bind alone_when_levelUp).trans ?_
  refine (Prog.alone_bind alone_emit).trans ?_
  simp only [finishEvents, List.map_append, List.map_cons, view_append, view_cons]
  rfl

end CheckIn

-- A check-in that goes through has found its user.
theorem checkInTx_found {locationId : Id} (hunvisited : w.checkIns.find? (userId, locationId) = none) :
    Tx.Returns (fun _ _ => (w.users.find? userId).isSome)
      (checkInTx host userId questId locationId body quest) [] w := by
  unfold checkInTx
  refine Tx.returns_query (fun _ => rfl) ?_
  rw [view_nil, hunvisited]
  refine Tx.returns_call fun _ _ he => ?_
  obtain ⟨_, huser, _⟩ := exec_checkInCreate he
  exact fun _ _ _ => huser

-- A check-in leaves no trace or is one at an open waypoint.
theorem checkInLocation_cases (host : Host) (userId questId locationId : Id)
    (body : QuestCheckInBody) (w : World) :
    Prog.Ends (fun answer w' => (answer.toOption ≠ some ⟨201, true, true⟩ ∧ w' = w) ∨
      ∃ l, l.id = locationId ∧ Open host w userId questId l body)
      (checkInLocation host userId questId locationId body) w := by
  have herror (e : ApiError) : (Except.error e : Except ApiError CheckInOutcome).toOption ≠
      some ⟨201, true, true⟩ := fun he => by cases he
  unfold checkInLocation
  refine Prog.ends_query (fun _ => rfl) (Prog.ends_expect (Or.inl ⟨herror _, rfl⟩) fun quest hquest => ?_)
  refine Prog.ends_require (Or.inl ⟨herror _, rfl⟩) fun hpublished => ?_
  refine Prog.ends_query (fun _ => rfl) (Prog.ends_expect (Or.inl ⟨herror _, rfl⟩) fun l hl => ?_)
  refine Prog.ends_require (Or.inl ⟨herror _, rfl⟩) fun hrange => ?_
  refine Prog.ends_query (fun _ => rfl) ?_
  split
  · refine Prog.ends_query (fun _ => rfl) (Or.inl ⟨?_, rfl⟩)
    exact fun he => by cases he
  · rename_i hunvisited
    unfold checkInNew
    refine Prog.ends_query (fun _ => rfl) (Prog.ends_expect (Or.inl ⟨herror _, rfl⟩) fun row hrow => ?_)
    refine Prog.ends_require (Or.inl ⟨herror _, rfl⟩) fun hstarted => ?_
    refine Prog.ends_require (Or.inl ⟨herror _, rfl⟩) fun _ => ?_
    refine Prog.ends_transaction (fun _ => Or.inl ⟨herror _, rfl⟩) fun out ws hrun => Or.inr ?_
    obtain ⟨found, hfound, rfl⟩ := Option.map_eq_some_iff.mp hquest
    obtain ⟨hlocation, hof⟩ := Option.filter_eq_some_iff.mp hl
    have hid : l.id = locationId := Table.key_of_find? hlocation
    subst hid
    refine ⟨l, rfl, ?_, ?_, hrange, hunvisited, ?_, checkInTx_found hunvisited out ws hrun⟩
    · rw [hfound, Option.map_some, hpublished]
    · exact World.mem_locationsOf.mpr ⟨hlocation, of_decide_eq_true hof⟩
    · rw [Started, hrow, Option.map_some, hstarted]

end QuestsService

end SideQuest
