import SideQuest.Lib.Outbox
import SideQuest.Rewards.Levels

-- The event bus against the database: what quests and achievements announce has been
-- committed, and nothing is announced twice.

namespace SideQuest

open ReadCommitted QuestsService AchievementsService

-- What an event tells about the rows.
inductive Announcement where
  | started (userId questId : Id)
  | checkedIn (userId questId locationId : Id)
  | completed (userId questId : Id) (xpAwarded : ℤ) (completedAt : Time)
  | unlocked (userId achievementId : Id)
  deriving DecidableEq

namespace Announcement

-- The events that tell it.
def tells : Announcement → AppEvent → Bool
  | .started u q, .questStarted u' q' => u = u' ∧ q = q'
  | .checkedIn u q l, .questLocationCheckedIn u' q' l' => u = u' ∧ q = q' ∧ l = l'
  | .completed u q xp t, .questCompleted u' q' xp' t' => u = u' ∧ q = q' ∧ xp = xp' ∧ t = t'
  | .unlocked u a, .achievementUnlocked u' a' _ => u = u' ∧ a = a'
  | _, _ => false

def announces (k : Announcement) : Write → Bool
  | .emit event => k.tells event
  | _ => false

-- The writes that make it true.
def commits : Announcement → Write → Bool
  | .started u q, .completionUpdate u' q' d => u = u' ∧ q = q' ∧ d.status = some .STARTED
  | .started u q, .completionCreate row => u = row.userId ∧ q = row.questId
  | .checkedIn u q l, .checkInCreate row =>
      u = row.userId ∧ q = row.questId ∧ l = row.locationId
  | .completed u q xp t, .completionUpdate u' q' d =>
      u = u' ∧ q = q' ∧ d.status = some .COMPLETED ∧ some xp = d.xpAwarded ∧ some t = d.completedAt
  | .unlocked u a, .userAchievementUpdate u' a' d => u = u' ∧ a = a' ∧ d.unlockedAt.isSome
  | .unlocked u a, .userAchievementCreate row =>
      u = row.userId ∧ a = row.achievementId ∧ row.unlockedAt.isSome
  | _, _ => false

end Announcement

abbrev Pay (due : Announcement → ℕ) (ws : List Write) (due' : Announcement → ℕ) : Prop :=
  Pays Announcement.commits Announcement.announces due ws due'

theorem pays_emit {due : Announcement → ℕ} {event : AppEvent} {k : Announcement}
    (htells : ∀ i : Announcement, i.tells event = decide (i = k)) :
    Pay (due + owed k) [.emit event] due := by
  refine pays_effect (fun i => ?_) fun i => ?_
  · cases i <;> rfl
  · have hannounces : i.announces (.emit event) = decide (i = k) := htells i
    simp [hannounces, owed]

section Requests

variable {α : Type} {Q : (Announcement → ℕ) → α → Prop} {due : Announcement → ℕ}
  {host : Host} {userId questId : Id}

abbrev Settling (Q : (Announcement → ℕ) → α → Prop) (due : Announcement → ℕ) (p : Request α) :
    Prop := Settles Announcement.commits Announcement.announces Q due p

theorem settles_emit {f : Unit → Request α} {event : AppEvent} {k : Announcement}
    (htells : ∀ i : Announcement, i.tells event = decide (i = k)) (h : Settling Q due (f ())) :
    Settling Q (due + owed k) (emit event >>= f) := by
  refine settles_call fun db a ws he => ?_
  cases exec_emit he
  exact ⟨due, pays_emit htells, h⟩

theorem settles_when_levelUp {Q : (Announcement → ℕ) → Unit → Prop} {c : Prop} [Decidable c]
    {u : Id} {m n : ℕ} (hQ : Q due ()) : Settling Q due (Prog.when c (emit (.levelUp u m n))) := by
  unfold Prog.when
  split
  · intro db a ws he
    cases exec_emit he
    refine ⟨due, pays_mute (fun i => ?_) fun i => ?_, hQ⟩ <;> cases i <;> rfl
  · exact hQ

theorem settles_start (userId questId : Id) :
    SettlesAll Announcement.commits Announcement.announces (start userId questId) := by
  unfold start
  refine settles_query (fun _ => rfl) fun db => ?_
  refine settles_expect fun quest _ => ?_
  refine settles_require fun _ => ?_
  refine settles_query (fun _ => rfl) fun db' => ?_
  refine settles_call fun db'' _ ws he => ?_
  refine ⟨0 + owed (.started userId questId), ?_, ?_⟩
  · apply pays_cause
    · intro i
      rcases exec_completionUpsertStarted he with ⟨_, _, rfl⟩ | ⟨_, _, rfl⟩ <;>
        cases i <;> simp [Announcement.commits, owed]
    · intro i
      rcases exec_completionUpsertStarted he with ⟨_, _, rfl⟩ | ⟨_, _, rfl⟩ <;> cases i <;> rfl
  · refine settles_call fun _ _ _ he => ?_
    cases exec_emit he
    refine ⟨0, pays_emit fun i => ?_, rfl⟩
    cases i <;> simp [Announcement.tells]

-- The writes of a finalization are its completion and the reward of the user.
theorem tx_settles_finalize {Q : List Write → FinalizeOutcome → Prop} {quest : QuestWithLocations}
    {proof : Option CompletionProof} {ws : List Write}
    (h : ∀ completion user now previousLevel newLevel newStreak,
      Q (ws ++ [claimWrite userId questId quest proof completion now,
          rewardWrite host userId quest user now])
        ⟨quest.quest.xpReward, previousLevel, newLevel, newStreak, now⟩) :
    Tx.Settles Q ws (finalizeQuestCompletionTx host userId questId quest proof) := by
  unfold finalizeQuestCompletionTx
  refine tx_settles_query (fun _ => rfl) fun _ => ?_
  refine tx_settles_expect fun user _ => ?_
  refine tx_settles_query (fun _ => rfl) fun _ => ?_
  refine tx_settles_query (fun _ => rfl) fun _ => ?_
  refine tx_settles_expect fun completion _ => ?_
  refine tx_settles_require fun _ => ?_
  refine tx_settles_call fun _ _ _ he => ?_
  obtain ⟨_, rfl⟩ := exec_completionUpdate he
  refine tx_settles_call fun _ _ _ he => ?_
  obtain ⟨_, _, _, rfl⟩ := exec_userUpdate he
  rw [List.append_assoc]
  exact h completion user _ _ _ _

theorem countP_finalize {quest : QuestWithLocations} {proof : Option CompletionProof}
    {completion : QuestCompletion} {user : User} {now : Time} (i : Announcement) :
    [claimWrite userId questId quest proof completion now,
      rewardWrite host userId quest user now].countP i.commits =
        owed (.completed userId questId quest.quest.xpReward now) i ∧
    [claimWrite userId questId quest proof completion now,
      rewardWrite host userId quest user now].countP i.announces = 0 := by
  constructor
  · cases i <;> simp [List.countP_cons, Announcement.commits, completedData, owed]
  · cases i <;> rfl

theorem tells_completed (u q : Id) (xp : ℤ) (now : Time) (i : Announcement) :
    i.tells (.questCompleted u q xp now) = decide (i = .completed u q xp now) := by
  cases i <;> simp [Announcement.tells]

theorem settles_complete (host : Host) (userId questId : Id) (proof : Option CompletionProof) :
    SettlesAll Announcement.commits Announcement.announces
      (complete host userId questId proof).void := by
  apply settles_void
  unfold complete
  refine settles_query (fun _ => rfl) fun _ => ?_
  refine settles_expect fun quest _ => ?_
  refine settles_query (fun _ => rfl) fun _ => ?_
  refine settles_expect fun active _ => ?_
  refine settles_require fun _ => ?_
  refine settles_transaction (tx_settles_finalize fun completion user now m n k => ?_)
  refine ⟨0 + owed (.completed userId questId quest.quest.xpReward now), ?_, ?_⟩
  · exact pays_cause (fun i => (countP_finalize i).1) fun i => (countP_finalize i).2
  · refine settles_emit (tells_completed _ _ _ _) ?_
    exact (settles_when_levelUp rfl).bind

theorem tells_checkedIn (u q l : Id) (i : Announcement) :
    i.tells (.questLocationCheckedIn u q l) = decide (i = .checkedIn u q l) := by
  cases i <;> simp [Announcement.tells]

variable (due) in
-- A check-in owes its own announcement, and with the last waypoint that of the quest.
theorem tx_settles_checkInTx {Q : List Write → CheckInTxOutcome → Prop} {locationId : Id}
    {body : QuestCheckInBody} {quest : QuestWithLocations}
    (hagain : ∀ completed, Q [] ⟨200, completed, none⟩)
    (hstep : ∀ ws, Pay due ws (due + owed (.checkedIn userId questId locationId)) →
      Q ws ⟨201, false, none⟩)
    (hlast : ∀ ws fin, Pay due ws (due + owed (.checkedIn userId questId locationId) +
        owed (.completed userId questId fin.xpAwarded fin.completedAt)) →
      Q ws ⟨201, true, some fin⟩) :
    Tx.Settles Q [] (checkInTx host userId questId locationId body quest) := by
  unfold checkInTx
  refine tx_settles_query (fun _ => rfl) fun db => ?_
  split
  · exact tx_settles_query (fun _ => rfl) fun _ => hagain _
  · refine tx_settles_call fun _ _ _ he => ?_
    obtain ⟨_, _, rfl⟩ := exec_checkInCreate he
    refine tx_settles_call fun _ _ _ he => ?_
    obtain ⟨_, rfl⟩ := exec_completionUpdate he
    refine tx_settles_call fun _ _ _ he => ?_
    obtain ⟨_, _, _, rfl⟩ := exec_userUpdate he
    have hpays (w : World) : Pay due
        [.checkInCreate ⟨userId, questId, locationId, body.position.latitude,
            body.position.longitude, body.accuracyM, w.clock⟩,
          .completionUpdate userId questId { checkedInLocationIds := some locationId },
          .userUpdate userId { placesVisited := .increment 1 }]
        (due + owed (.checkedIn userId questId locationId)) := by
      apply pays_cause
      · intro i
        cases i <;> simp [List.countP_cons, Announcement.commits, owed]
      · intro i
        cases i <;> rfl
    refine tx_settles_query (fun _ => rfl) fun _ => ?_
    split
    · apply Tx.Settles.bind
      refine tx_settles_finalize fun completion user now m n k => hlast _ _ ?_
      exact (hpays _).append (pays_cause (fun i => (countP_finalize i).1)
        fun i => (countP_finalize i).2)
    · exact hstep _ (hpays _)

theorem settles_checkInLocation (host : Host) (userId questId locationId : Id)
    (body : QuestCheckInBody) : SettlesAll Announcement.commits Announcement.announces
      (checkInLocation host userId questId locationId body).void := by
  apply settles_void
  unfold checkInLocation
  refine settles_query (fun _ => rfl) fun _ => ?_
  refine settles_expect fun quest _ => ?_
  refine settles_require fun _ => ?_
  refine settles_query (fun _ => rfl) fun _ => ?_
  refine settles_expect fun location _ => ?_
  refine settles_require fun _ => ?_
  refine settles_query (fun _ => rfl) fun _ => ?_
  split
  · exact settles_query (fun _ => rfl) fun _ => rfl
  · unfold checkInNew
    refine settles_query (fun _ => rfl) fun _ => ?_
    refine settles_expect fun active _ => ?_
    refine settles_require fun _ => ?_
    refine settles_require fun _ => ?_
    refine settles_transaction (tx_settles_checkInTx 0 ?_ ?_ ?_)
    · exact fun completed => ⟨0, fun _ => rfl, rfl⟩
    · refine fun ws hpays => ⟨_, hpays, ?_⟩
      exact settles_emit (tells_checkedIn _ _ _) rfl
    · refine fun ws fin hpays => ⟨_, hpays, ?_⟩
      refine settles_emit (tells_completed _ _ _ _) ?_
      refine (settles_when_levelUp ?_).bind
      exact settles_emit (tells_checkedIn _ _ _) rfl

-- An unlocking transaction owes one announcement, whatever the bonus.
theorem tx_settles_unlockTx {Q : List Write → Unit → Prop} {achievement : Achievement}
    (h : ∀ ws, Pay due ws (due + owed (.unlocked userId achievement.id)) → Q ws ()) :
    Tx.Settles Q [] (unlockTx userId achievement) := by
  unfold unlockTx
  refine tx_settles_query (fun _ => rfl) fun _ => ?_
  refine tx_settles_call fun _ _ ws he => ?_
  have hunlock : Pay due ws (due + owed (.unlocked userId achievement.id)) := by
    apply pays_cause
    · intro i
      rcases exec_userAchievementUpsertUnlocked he with ⟨_, _, rfl⟩ | ⟨_, _, rfl⟩ <;>
        cases i <;> simp [Announcement.commits, owed]
    · intro i
      rcases exec_userAchievementUpsertUnlocked he with ⟨_, _, rfl⟩ | ⟨_, _, rfl⟩ <;>
        cases i <;> rfl
  split
  · refine tx_settles_call fun _ _ _ he => ?_
    obtain ⟨_, _, _, rfl⟩ := exec_userUpdate he
    refine tx_settles_call fun _ _ _ he => ?_
    obtain ⟨_, _, _, rfl⟩ := exec_userUpdate he
    refine h _ ((hunlock.append (pays_mute (fun i => ?_) fun i => ?_)).append
      (pays_mute (fun i => ?_) fun i => ?_)) <;> cases i <;> rfl
  · exact h _ hunlock

theorem settles_unlock {Q : (Announcement → ℕ) → Unit → Prop} {achievement : Achievement}
    (hQ : Q due ()) : Settling Q due (unlock userId achievement) := by
  unfold unlock
  refine settles_query (fun _ => rfl) fun _ => ?_
  refine settles_transaction (tx_settles_unlockTx fun ws hpays => ⟨_, hpays, ?_⟩)
  refine settles_emit (fun i => ?_) ?_
  · cases i <;> simp [Announcement.tells]
  · split
    · refine settles_query (fun _ => rfl) fun _ => ?_
      exact settles_when_levelUp hQ
    · exact hQ

theorem settles_evaluateOne {Q : (Announcement → ℕ) → Unit → Prop} {achievement : Achievement}
    (hQ : Q due ()) : Settling Q due (evaluateOne userId achievement) := by
  unfold evaluateOne
  refine settles_query (fun _ => rfl) fun _ => ?_
  split
  · exact hQ
  · refine settles_readOnly evaluateWithProgress_queries.readOnly fun result => ?_
    split
    · split
      · exact settles_unlock hQ
      · unfold Prog.when
        split
        · refine settles_call (f := pure) fun _ _ _ he => ⟨due, ?_, hQ⟩
          obtain ⟨_, rfl⟩ := exec_userAchievementUpdateProgress he
          refine pays_mute (fun i => ?_) fun i => ?_ <;>
            cases i <;> simp [Announcement.commits, Announcement.announces]
        · exact hQ
    · split
      · exact settles_unlock hQ
      · unfold Prog.when
        split
        · refine settles_call (f := pure) fun _ _ _ he => ⟨due, ?_, hQ⟩
          obtain ⟨_, _, rfl⟩ := exec_userAchievementCreate he
          refine pays_mute (fun i => ?_) fun i => ?_ <;>
            cases i <;> simp [Announcement.commits, Announcement.announces]
        · exact hQ

theorem settles_evaluateForUser (userId : Id) :
    SettlesAll Announcement.commits Announcement.announces (evaluateForUser userId) := by
  unfold evaluateForUser
  refine settles_query (fun _ => rfl) fun w => ?_
  show SettlesAll _ _ (evaluateEach userId w.achievements.rows)
  induction w.achievements.rows with
  | nil => rfl
  | cons achievement rest ih => exact (settles_evaluateOne ih).bind

end Requests

section Bus

variable {p : AppEvent → Bool}

def onBus (p : AppEvent → Bool) : Write → Bool
  | .emit event => p event
  | _ => false

theorem countP_events_apply (w : World) (wr : Write) :
    (w.apply wr).events.countP p = w.events.countP p + [wr].countP (onBus p) := by
  cases wr with
  | emit event =>
      show (w.events ++ [event]).countP p = _
      rw [List.countP_append, List.countP_singleton, List.countP_singleton]
      rfl
  | _ => rfl

theorem countP_events_view (w : World) (ws : List Write) :
    (view Stmt w ws).events.countP p = w.events.countP p + ws.countP (onBus p) := by
  induction ws generalizing w with
  | nil => rfl
  | cons wr ws ih =>
      rw [view_cons, ih, apply_eq, countP_events_apply, Nat.add_assoc, ← List.countP_append]
      rfl

abbrev busContract (p : AppEvent → Bool) (w : World) : Contract Stmt World Write :=
  .ofInv (fun s => s.db.events.countP p = w.events.countP p + countOf (onBus p) s.wal) Guard.none

theorem busContract_commits {w : World} {s : Store World Write}
    (h : (busContract p w).rules.inv s) (me : ℕ) (ws : List Write) :
    (busContract p w).rules.Commits me s ws := by
  refine ⟨?_, trivial⟩
  cases ws with
  | nil => exact h
  | cons wr ws =>
      show (s.commit Stmt me (wr :: ws)).db.events.countP p = _
      rw [Store.commit_db, countP_events_view, Store.commit_wal_cons, countOf_concat,
        ← Nat.add_assoc, ← h]

-- The bus has what has been put on it, whatever the requests.
theorem countP_events_of_reaches {requests : Request Unit → Prop} {w : World}
    {s : System Stmt World Write ApiError}
    (h : System.Reaches requests Guard.none (System.init w) s) :
    s.store.db.events.countP p = w.events.countP p + countOf (onBus p) s.store.wal := by
  have hsafe := System.Reaches.safe (C := busContract p w)
    (fun q _ me st _ => Rules.wp_any (fun _ => True) (fun _ => True) (fun _ _ => trivial)
      (fun _ _ _ _ _ _ _ _ => trivial) (fun _ ws hst _ => busContract_commits hst me ws) q st)
    (fun _ _ hst => ⟨hst, trivial⟩) (System.init_safe rfl) h
  exact hsafe.1.inv

end Bus

-- Of every kind, the bus has at most one event for each committed write, and for a
-- request that has answered it has all of them.
structure Announced (w : World) (s : System Stmt World Write ApiError) : Prop where
  events : ∀ k : Announcement, s.store.db.events.countP k.tells ≤
    w.events.countP k.tells + countOf k.commits s.store.wal
  answered : ∀ (k : Announcement) (i : ℕ), s.threads[i]? = some (.run (.pure ())) →
    countOf k.announces (s.store.own i) = countOf k.commits (s.store.own i)

theorem announced_of_reaches (host : Host) {w : World} {s : System Stmt World Write ApiError}
    (h : System.Reaches (RewardRequest host) Guard.none (System.init w) s) : Announced w s := by
  have hsettled : s.Settled Announcement.commits Announcement.announces := by
    refine System.Reaches.settled (fun p hp => ?_) (System.init_settled w) h
    rcases hp with ⟨userId, questId, hp⟩ | ⟨userId, rfl⟩
    · cases hp with
      | start => exact settles_start userId questId
      | complete proof => exact settles_complete host userId questId proof
      | checkInLocation locationId body =>
          exact settles_checkInLocation host userId questId locationId body
    · exact settles_evaluateForUser userId
  refine ⟨fun k => ?_, fun k i hi => hsettled.answered hi k⟩
  have hbus : onBus k.tells = k.announces := by
    funext wr
    cases wr <;> rfl
  rw [countP_events_of_reaches h, hbus]
  exact Nat.add_le_add_left (hsettled.le k) _

-- Check-ins at both waypoints at the same time, up to their answers: each is announced,
-- and the completion once.
theorem announced_both_checkIns : ∃ s : System Stmt World Write ApiError,
    Announced onTheLongTrail s ∧ s.store.db.events =
      [.questCompleted 1 1 100 0, .questLocationCheckedIn 1 1 1, .levelUp 1 1 2,
        .questLocationCheckedIn 1 1 2] := by
  have hps : ∀ p ∈ [visit 1, visit 2], RewardRequest .plain p := by
    simp only [List.forall_mem_cons]
    exact ⟨Or.inl ⟨1, 1, .checkInLocation 1 _⟩, Or.inl ⟨1, 1, .checkInLocation 2 _⟩, by simp⟩
  obtain ⟨s, hs, hobs⟩ := System.exists_reaches_of_interleave (RewardRequest .plain) Guard.none
    (System.init onTheLongTrail) [visit 1, visit 2]
    [0, 1, 0, 1, 0, 1, 0, 1, 0, 1, 0, 1, 0, 1, 0, 0, 0, 0, 1, 1, 1, 1, 1, 1, 1, 1, 1, 1, 0, 1, 1]
    (fun s => s.store.db.events)
    [.questCompleted 1 1 100 0, .questLocationCheckedIn 1 1 1, .levelUp 1 1 2,
      .questLocationCheckedIn 1 1 2] hps (by decide +kernel)
  exact ⟨s, announced_of_reaches .plain hs, hobs⟩

end SideQuest
