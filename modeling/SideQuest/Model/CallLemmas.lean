import SideQuest.Lib.Alone
import SideQuest.Model.Host
import SideQuest.Model.Locks

-- What a writing call that went through says about the row it found and about its
-- writes.

namespace SideQuest

open ReadCommitted

variable {w : World} {ws : List Write}

-- One equation for each call.
attribute [local simp] Stmt.exec

theorem exec_emit {event : AppEvent} {a : Unit}
    (h : Stmt.exec (.emit event) w = .ok (a, ws)) : ws = [.emit event] := by
  cases h
  rfl

theorem exec_userCreate {row a : User} (h : Stmt.exec (.userCreate row) w = .ok (a, ws)) :
    w.users.find? row.id = none ∧ w.userByEmail row.email = none ∧
      w.userByUsername row.username = none ∧ a = row ∧ ws = [.userCreate row] := by
  simp only [Stmt.exec, fail] at h
  split at h
  · cases h
  · rename_i hfree
    cases h
    simpa only [not_or, Option.not_isSome_iff_eq_none, and_true] using hfree

theorem exec_userUpdate {id : Id} {d : UserUpdate} {a : User}
    (h : Stmt.exec (.userUpdate id d) w = .ok (a, ws)) :
    ∃ row, w.users.find? id = some row ∧ a = d.apply row ∧ ws = [.userUpdate id d] := by
  simp only [Stmt.exec, fail] at h
  split at h
  · rename_i row hrow
    cases h
    exact ⟨row, hrow, rfl, rfl⟩
  · cases h

theorem exec_checkInCreate {u q l : Id} {position : Coordinates} {accuracyM : Option ℕ}
    {a : Unit} (h : Stmt.exec (.checkInCreate u q l position accuracyM) w = .ok (a, ws)) :
    w.checkIns.find? (u, l) = none ∧ (w.users.find? u).isSome ∧ ws = [.checkInCreate
      ⟨u, q, l, position.latitude, position.longitude, accuracyM, w.clock⟩] := by
  simp only [Stmt.exec, fail] at h
  split at h
  · cases h
  · rename_i hfree
    split at h
    · cases h
    · rename_i hrefs
      cases h
      simp only [not_or, Option.isNone_iff_eq_none, Option.ne_none_iff_isSome] at hfree hrefs
      exact ⟨by simpa using hfree, hrefs.1, rfl⟩

theorem exec_completionUpsertStarted {u q : Id} {startedAt : Time} {a : Unit}
    (h : Stmt.exec (.completionUpsertStarted u q startedAt) w = .ok (a, ws)) :
    (∃ row, w.completions.find? (u, q) = some row ∧ ws = [.completionUpdate u q
      { status := some .STARTED, startedAt := some startedAt }]) ∨
    (w.completions.find? (u, q) = none ∧ (w.users.find? u).isSome ∧
      ws = [.completionCreate { userId := u, questId := q, startedAt := w.clock }]) := by
  simp only [Stmt.exec, fail] at h
  split at h
  · rename_i row hrow
    cases h
    exact Or.inl ⟨row, hrow, rfl⟩
  · rename_i hnone
    split at h
    · cases h
    · rename_i hrefs
      cases h
      simp only [not_or, Option.isNone_iff_eq_none, Option.ne_none_iff_isSome] at hrefs
      exact Or.inr ⟨hnone, hrefs.1, rfl⟩

theorem exec_completionUpdate {u q : Id} {d : QuestCompletionUpdate} {a : Unit}
    (h : Stmt.exec (.completionUpdate u q d) w = .ok (a, ws)) :
    (∃ row, w.completions.find? (u, q) = some row) ∧ ws = [.completionUpdate u q d] := by
  simp only [Stmt.exec, fail] at h
  split at h
  · rename_i row hrow
    cases h
    exact ⟨⟨row, hrow⟩, rfl⟩
  · cases h

theorem exec_userAchievementCreate {u a : Id} {progress : ℤ} {b : Unit}
    (h : Stmt.exec (.userAchievementCreate u a progress) w = .ok (b, ws)) :
    w.userAchievements.find? (u, a) = none ∧ (w.users.find? u).isSome ∧
      ws = [.userAchievementCreate { userId := u, achievementId := a, progress := progress }] := by
  simp only [Stmt.exec, fail] at h
  split at h
  · cases h
  · rename_i hfree
    split at h
    · cases h
    · rename_i hrefs
      cases h
      simp only [not_or, Option.isNone_iff_eq_none, Option.ne_none_iff_isSome] at hfree hrefs
      exact ⟨by simpa using hfree, hrefs.1, rfl⟩

theorem exec_userAchievementUpdateProgress {u a : Id} {progress : ℤ} {b : Unit}
    (h : Stmt.exec (.userAchievementUpdateProgress u a progress) w = .ok (b, ws)) :
    (∃ row, w.userAchievements.find? (u, a) = some row) ∧
      ws = [.userAchievementUpdate u a { progress := some progress }] := by
  simp only [Stmt.exec, fail] at h
  split at h
  · rename_i row hrow
    cases h
    exact ⟨⟨row, hrow⟩, rfl⟩
  · cases h

theorem exec_userAchievementUpsertUnlocked {u a : Id} {unlockedAt : Time} {progress : ℤ}
    {b : Unit} (h : Stmt.exec (.userAchievementUpsertUnlocked u a unlockedAt progress) w =
      .ok (b, ws)) :
    (∃ row, w.userAchievements.find? (u, a) = some row ∧ ws = [.userAchievementUpdate u a
      { unlockedAt := some unlockedAt, progress := some progress }]) ∨
    (w.userAchievements.find? (u, a) = none ∧ (w.users.find? u).isSome ∧
      ws = [.userAchievementCreate
        { userId := u, achievementId := a, unlockedAt := some unlockedAt, progress := progress }]) := by
  simp only [Stmt.exec, fail] at h
  split at h
  · rename_i row hrow
    cases h
    exact Or.inl ⟨row, hrow, rfl⟩
  · rename_i hnone
    split at h
    · cases h
    · rename_i hrefs
      cases h
      simp only [not_or, Option.isNone_iff_eq_none, Option.ne_none_iff_isSome] at hrefs
      exact Or.inr ⟨hnone, hrefs.1, rfl⟩

theorem exec_friendshipCreate {row a : Friendship}
    (h : Stmt.exec (.friendshipCreate row) w = .ok (a, ws)) :
    w.friendships.find? row.id = none ∧
      w.friendshipOfPair row.requesterId row.addresseeId = none ∧
      (w.users.find? row.requesterId).isSome ∧ (w.users.find? row.addresseeId).isSome ∧
      a = row ∧ ws = [.friendshipCreate row] := by
  simp only [Stmt.exec, fail] at h
  split at h
  · cases h
  · rename_i hfree
    split at h
    · cases h
    · rename_i hrefs
      cases h
      simp only [not_or, Option.not_isSome_iff_eq_none, Option.isNone_iff_eq_none,
        Option.ne_none_iff_isSome] at hfree hrefs
      exact ⟨hfree.1, hfree.2, hrefs.1, hrefs.2, rfl, rfl⟩

theorem exec_friendshipUpdateStatus {id : Id} {status : FriendshipStatus} {respondedAt : Time}
    {a : Friendship}
    (h : Stmt.exec (.friendshipUpdateStatus id status respondedAt) w = .ok (a, ws)) :
    ∃ row, w.friendships.find? id = some row ∧ a = FriendshipUpdate.apply ⟨status, respondedAt⟩ row ∧
      ws = [.friendshipUpdate id ⟨status, respondedAt⟩] := by
  simp only [Stmt.exec, fail] at h
  split at h
  · rename_i row hrow
    cases h
    exact ⟨row, hrow, rfl, rfl⟩
  · cases h

theorem exec_friendshipDelete {id : Id} {a : Friendship}
    (h : Stmt.exec (.friendshipDelete id) w = .ok (a, ws)) :
    w.friendships.find? id = some a ∧ ws = [.friendshipDelete a] := by
  simp only [Stmt.exec, fail] at h
  split at h
  · rename_i row hrow
    cases h
    exact ⟨hrow, rfl⟩
  · cases h

theorem exec_inviteCreate {id inviterId : Id} {token email : String} {a : Invite}
    (h : Stmt.exec (.inviteCreate id token email inviterId) w = .ok (a, ws)) :
    w.invites.find? id = none ∧ w.inviteByToken token = none ∧ (w.users.find? inviterId).isSome ∧
      a = { id, token, inviterId, email, sentAt := w.clock } ∧ ws = [.inviteCreate a] := by
  simp only [Stmt.exec, fail] at h
  split at h
  · cases h
  · rename_i hfree
    split at h
    · cases h
    · rename_i hinviter
      cases h
      simp only [not_or, Option.not_isSome_iff_eq_none, Option.isNone_iff_eq_none,
        Option.ne_none_iff_isSome] at hfree hinviter
      exact ⟨hfree.1, hfree.2, hinviter, rfl, rfl⟩

theorem exec_inviteCancel {id : Id} {a : Unit} (h : Stmt.exec (.inviteCancel id) w = .ok (a, ws)) :
    (∃ row, w.invites.find? id = some row) ∧ ws = [.inviteUpdate id { status := .CANCELLED }] := by
  simp only [Stmt.exec, fail] at h
  split at h
  · rename_i row hrow
    cases h
    exact ⟨⟨row, hrow⟩, rfl⟩
  · cases h

-- Each row that is cancelled was pending.
theorem exec_inviteCancelPending {inviterId : Id} {email : String} {n : ℕ}
    (h : Stmt.exec (.inviteCancelPending inviterId email) w = .ok (n, ws)) :
    ∃ pending : List Invite, ws = pending.map (fun i => .inviteUpdate i.id { status := .CANCELLED }) ∧
      ∀ i ∈ pending, w.invites.find? i.id = some i ∧ i.status = .PENDING := by
  cases h
  refine ⟨_, rfl, fun i hi => ?_⟩
  obtain ⟨hmem, hpending⟩ := List.mem_filter.mp hi
  have hwhere := of_decide_eq_true hpending
  exact ⟨Table.find?_of_mem hmem, hwhere.2.2⟩

theorem exec_inviteClaim {id inviteeId : Id} {token : String} {acceptedAt : Time} {n : ℕ}
    (h : Stmt.exec (.inviteClaim id token inviteeId acceptedAt) w = .ok (n, ws)) (hn : n = 1) :
    ∃ row, w.invites.find? id = some row ∧ row.status = .PENDING ∧ row.token = token ∧
      ws = [.inviteUpdate id
        { status := .ACCEPTED, inviteeId := some inviteeId, acceptedAt := some acceptedAt }] := by
  simp only [Stmt.exec, ask] at h
  split at h
  · rename_i row hrow
    cases h
    obtain ⟨hfound, hmatch⟩ := Option.filter_eq_some_iff.mp hrow
    obtain ⟨hstatus, htoken⟩ := of_decide_eq_true hmatch
    exact ⟨row, hfound, hstatus, htoken, rfl⟩
  · cases h
    cases hn

theorem view_emits (db : World) (events : List AppEvent) :
    view Stmt db (events.map .emit) = { db with events := db.events ++ events } := by
  induction events generalizing db with
  | nil => rw [List.append_nil]; rfl
  | cons event events ih =>
      rw [List.map_cons, view_cons, ih]
      simp [World.apply]

theorem alone_emit {event : AppEvent} :
    (emit event).alone w = (.ok (), view Stmt w ([event].map .emit)) := rfl

theorem alone_when_emit {c : Prop} [Decidable c] {event : AppEvent} :
    (Prog.when c (emit event)).alone w =
      (.ok (), view Stmt w ((if c then [event] else []).map .emit)) := by
  have hemit : Stmt.exec (.emit event) w = .ok ((), [event].map .emit) := rfl
  rw [Prog.alone_when_call hemit]
  split <;> rfl

-- The announcement of a level, if it is a higher one.
def levelUps (userId : Id) (previousLevel newLevel : ℕ) : List AppEvent :=
  if newLevel > previousLevel then [.levelUp userId previousLevel newLevel] else []

theorem alone_when_levelUp {userId : Id} {previousLevel newLevel : ℕ} :
    (Prog.when (newLevel > previousLevel) (emit (.levelUp userId previousLevel newLevel))).alone w =
      (.ok (), view Stmt w ((levelUps userId previousLevel newLevel).map .emit)) :=
  alone_when_emit

theorem clock_apply (w : World) (wr : Write) : (w.apply wr).clock = w.clock := by
  cases wr <;> rfl

theorem clock_view (db : World) (ws : List Write) : (view Stmt db ws).clock = db.clock := by
  induction ws generalizing db with
  | nil => rfl
  | cons wr ws ih => rw [view_cons, ih, apply_eq, clock_apply]

-- No request removes a user.
theorem isSome_user_view {db : World} {id : Id} (h : (db.users.find? id).isSome)
    (ws : List Write) : ((view Stmt db ws).users.find? id).isSome := by
  induction ws generalizing db with
  | nil => exact h
  | cons wr ws ih =>
      apply ih
      cases wr with
      | userCreate row =>
          by_cases hfree : db.users.find? row.id = none
          · have hne : row.id ≠ id := fun he => by simp [← he, hfree] at h
            rwa [apply_eq, World.apply, Table.find?_insert_ne _ hne]
          · have hmem : row.id ∈ db.users.rows.map User.id := by
              by_contra hn
              exact hfree (Table.notMem_keys_iff.mp hn)
            simpa [World.apply, Table.insert, hmem] using h
      | userUpdate id' d =>
          rw [apply_eq, World.find?_userUpdate]
          split
          · rwa [Option.isSome_map]
          · exact h
      | _ => exact h

-- A request that comes some milliseconds after the last one, and is served at once.
def servedAfter (call : ℕ × Request Unit) (w : World) : World :=
  (call.2.alone { w with clock := w.clock + call.1 }).2

-- An event on the bus is fine at any time.
def Emits (R : Rules Stmt) (me : ℕ) : Prop :=
  ∀ s e, R.inv s → R.Commits me s [.emit e]

variable {R : Rules Stmt} {me : ℕ} {α : Type} {P : α → Store World Write → Prop}
  {f : Unit → Request α} {event : AppEvent} {s : Store World Write}

theorem wp_emit (hemit : Emits R me) (h : ∀ s', R.wp me P (f ()) s') :
    R.wp me P (emit event >>= f) s := by
  refine Rules.wp_call fun s' hr _ _ _ he => ?_
  cases exec_emit he
  exact ⟨hemit s' event (R.rely_inv hr), h _⟩

theorem wp_when_emit (hemit : Emits R me) {c : Prop} [Decidable c]
    (h : ∀ s', R.wp me P (f ()) s') : R.wp me P (Prog.when c (emit event) >>= f) s := by
  unfold Prog.when
  split
  · exact wp_emit hemit h
  · exact h s

end SideQuest
