import SideQuest.Lib.Outbox
import SideQuest.Model.Inbox
import SideQuest.Notifications.Payloads

-- The notifications over every interleaving of listeners and readers: what is pushed has
-- been stored, once, for the user of the room, and only its user marks a row as read.

namespace SideQuest

namespace Inbox

open ReadCommitted NotificationsService NotificationsGateway

inductive InboxRequest (numberText : ℚ → String) : Request Unit → Prop where
  | onEvent (event : NotifyingEvent) (payload : Json) (id : String) :
      InboxRequest numberText (onEvent numberText event payload id)
  | countUnread (userId : String) : InboxRequest numberText (countUnread userId).void
  | markRead (id userId : String) : InboxRequest numberText (markRead id userId)
  | markAllRead (userId : String) : InboxRequest numberText (markAllRead userId)

-- What a push shows, and to which room.
abbrev Pushed := String × NotificationDto

-- A row as it was stored.
def fresh (row : NotificationRow) : NotificationRow := { row with readAt := none }

-- The push that a stored row calls for.
def shownAs (row : NotificationRow) : Pushed := (roomForUser row.userId, .fromEntity row)

def stores (k : Pushed) : Write → Bool
  | .notificationCreate row => k = shownAs (fresh row)
  | _ => false

def pushes (k : Pushed) : Write → Bool
  | .push room payload => k = (room, payload)
  | _ => false

section Settles

abbrev Settling {α : Type} (Q : (Pushed → ℕ) → α → Prop) (due : Pushed → ℕ) (p : Request α) :
    Prop := Settles stores pushes Q due p

theorem settles_send (input : SendInput) (id : String) :
    SettlesAll stores pushes (send input id).void := by
  apply settles_void
  unfold send
  refine settles_call fun w row ws he => ?_
  obtain ⟨rfl, rfl⟩ : row = create input id w.clock ∧
      ws = [.notificationCreate (create input id w.clock)] := by
    simp only [Backend.exec, Stmt.exec] at he
    split_ifs at he
    cases he
    exact ⟨rfl, rfl⟩
  refine ⟨0 + owed (shownAs (create input id w.clock)), ?_, ?_⟩
  · apply pays_cause
    · intro k
      have hstores : stores k (.notificationCreate (create input id w.clock)) =
        decide (k = shownAs (create input id w.clock)) := rfl
      simp [hstores, owed]
    · intro k
      rfl
  · refine settles_call fun _ _ _ he => ?_
    cases he
    refine ⟨0, ?_, rfl⟩
    apply pays_effect
    · intro k
      rfl
    · intro k
      have hpushes : pushes k (.push (roomForUser input.userId)
        (.fromEntity (create input id w.clock))) = decide (k = shownAs (create input id w.clock)) := rfl
      simp [hpushes, owed]

theorem settles_sendTo (id : String) (input : Option SendInput) :
    SettlesAll stores pushes (sendTo id input) := by
  cases input with
  | some input => exact settles_send input id
  | none => rfl

theorem settles_onEvent (numberText : ℚ → String) (event : NotifyingEvent) (payload : Json)
    (id : String) : SettlesAll stores pushes (onEvent numberText event payload id) := by
  unfold onEvent
  split
  · apply Settles.bind
    cases loaded event payload with
    | none => exact settles_sendTo id _
    | some userId => exact settles_query (f := .pure) (fun _ => rfl) fun w => settles_sendTo id _
  · rfl

-- Marking stores nothing and pushes nothing.
theorem settles_markRows {st : Stmt ℕ} {p : World → NotificationRow → Bool}
    (hst : ∀ w, Stmt.exec st w = markRows w (p w)) : SettlesAll stores pushes (prisma st).void := by
  apply settles_void
  intro w n ws he
  have hmark : markRows w (p w) = .ok (n, ws) := (hst w).symm.trans he
  cases hmark
  refine ⟨0, ?_, rfl⟩
  apply pays_mute <;> intro k <;> simp [stores, pushes]

theorem InboxRequest.settles {numberText : ℚ → String} {p : Request Unit}
    (hp : InboxRequest numberText p) : SettlesAll stores pushes p := by
  cases hp with
  | onEvent event payload id => exact settles_onEvent numberText event payload id
  | countUnread userId => exact settles_query (f := .pure) (fun _ => rfl) fun _ => rfl
  | markRead id userId => exact settles_markRows fun _ => rfl
  | markAllRead userId => exact settles_markRows fun _ => rfl

end Settles

section Log

def createdBy : Write → Option NotificationRow
  | .notificationCreate row => some (fresh row)
  | _ => none

def pushedBy : Write → Option Pushed
  | .push room payload => some (room, payload)
  | _ => none

def createdIn (log : List (ℕ × List Write)) : List NotificationRow :=
  (written log).filterMap fun entry => createdBy entry.2

def pushedIn (log : List (ℕ × List Write)) : List Pushed :=
  (written log).filterMap fun entry => pushedBy entry.2

theorem count_createdIn (k : Pushed) (log : List (ℕ × List Write)) :
    ((createdIn log).map shownAs).count k = countOf (stores k) log := by
  rw [List.count, List.countP_map, createdIn, List.countP_filterMap]
  refine List.countP_congr fun entry _ => ?_
  cases entry.2 with
  | notificationCreate row =>
      simp only [createdBy, stores, Option.map_some, Option.getD_some, Function.comp_apply,
        beq_iff_eq, decide_eq_true_eq]
      exact eq_comm
  | _ => simp [createdBy, stores]

theorem count_pushedIn (k : Pushed) (log : List (ℕ × List Write)) :
    (pushedIn log).count k = countOf (pushes k) log := by
  rw [List.count, pushedIn, List.countP_filterMap]
  refine List.countP_congr fun entry _ => ?_
  cases entry.2 with
  | push room payload =>
      simp only [pushedBy, pushes, Option.map_some, Option.getD_some, beq_iff_eq,
        decide_eq_true_eq]
      exact eq_comm
  | _ => simp [pushedBy, pushes]

theorem mem_pushedIn_of_own {k : Pushed} {s : Store World Write} {i : ℕ}
    (h : k ∈ pushedIn (s.own i)) : k ∈ pushedIn s.wal := by
  obtain ⟨entry, hentry, hk⟩ := List.mem_filterMap.mp h
  rw [Store.own, written_own] at hentry
  exact List.mem_filterMap.mpr ⟨entry, List.mem_of_mem_filter hentry, hk⟩

-- The rows are those that were there and those that were stored, apart from `readAt`.
structure InboxInv (w : World) (s : Store World Write) : Prop where
  rows : s.db.notifications.rows.map fresh = w.notifications.rows.map fresh ++ createdIn s.wal
  pushed : s.db.pushed = w.pushed ++ pushedIn s.wal

theorem rows_read (w : World) (id : String) (readAt : Time) :
    (w.apply (.notificationUpdate id readAt)).notifications.rows.map fresh =
      w.notifications.rows.map fresh := by
  simp only [World.apply, Table.rows_modify, List.map_map]
  refine List.map_congr_left fun row _ => ?_
  dsimp only [Function.comp_apply]
  split <;> rfl

theorem rows_view_read (w : World) (found : List NotificationRow) (readAt : Time) :
    (view Stmt w (found.map fun n => .notificationUpdate n.id readAt)).notifications.rows.map fresh =
        w.notifications.rows.map fresh ∧
      (view Stmt w (found.map fun n => .notificationUpdate n.id readAt)).pushed = w.pushed := by
  induction found generalizing w with
  | nil => exact ⟨rfl, rfl⟩
  | cons n rest ih =>
      obtain ⟨hrows, hpushed⟩ := ih (w.apply (.notificationUpdate n.id readAt))
      exact ⟨hrows.trans (rows_read w n.id readAt), hpushed⟩

-- What one statement writes, and what it found.
theorem exec_cases {β : Type} {st : Stmt β} {w : World} {b : β} {ws : List Write}
    (h : Stmt.exec st w = .ok (b, ws)) :
    ws = [] ∨ (∃ input id, w.notifications.find? id = none ∧
      ws = [.notificationCreate (create input id w.clock)]) ∨
    (∃ found : List NotificationRow, ws = found.map fun n => .notificationUpdate n.id w.clock) ∨
    ∃ room payload, ws = [.push room payload] := by
  cases st with
  | userFindUnique id =>
      cases h
      exact Or.inl rfl
  | notificationCreate input id =>
      simp only [Stmt.exec] at h
      split_ifs at h with hfree
      cases h
      exact Or.inr (Or.inl ⟨input, id, by simpa using hfree, rfl⟩)
  | notificationMarkRead id userId =>
      cases h
      exact Or.inr (Or.inr (Or.inl ⟨_, rfl⟩))
  | notificationMarkAllRead userId =>
      cases h
      exact Or.inr (Or.inr (Or.inl ⟨_, rfl⟩))
  | notificationCountUnread userId =>
      cases h
      exact Or.inl rfl
  | push room payload =>
      cases h
      exact Or.inr (Or.inr (Or.inr ⟨room, payload, rfl⟩))

theorem InboxInv.commit {w : World} {s : Store World Write} (h : InboxInv w s) (me : ℕ)
    {ws : List Write}
    (hrows : (view Stmt s.db ws).notifications.rows.map fresh =
      s.db.notifications.rows.map fresh ++ ws.filterMap createdBy)
    (hpushed : (view Stmt s.db ws).pushed = s.db.pushed ++ ws.filterMap pushedBy) :
    InboxInv w (s.commit Stmt me ws) := by
  cases ws with
  | nil => exact h
  | cons wr ws =>
      constructor
      · rw [Store.commit_db, hrows, h.rows, Store.commit_wal_cons, createdIn, createdIn,
          filterMap_written_concat, List.append_assoc]
      · rw [Store.commit_db, hpushed, h.pushed, Store.commit_wal_cons, pushedIn, pushedIn,
          filterMap_written_concat, List.append_assoc]

theorem InboxInv.exec {w : World} {s : Store World Write} (h : InboxInv w s) (me : ℕ) {β : Type}
    {st : Stmt β} {b : β} {ws : List Write} (he : Stmt.exec st s.db = .ok (b, ws)) :
    InboxInv w (s.commit Stmt me ws) := by
  rcases exec_cases he with rfl | ⟨input, id, hfree, rfl⟩ | ⟨found, rfl⟩ | ⟨room, payload, rfl⟩
  · exact h
  · refine h.commit me ?_ (List.append_nil _).symm
    have hinsert : (s.db.notifications.insert (create input id s.db.clock)).rows =
        s.db.notifications.rows ++ [create input id s.db.clock] := Table.rows_insert hfree
    show (s.db.notifications.insert _).rows.map fresh = _
    rw [hinsert, List.map_append]
    rfl
  · obtain ⟨hrows, hpushed⟩ := rows_view_read s.db found s.db.clock
    have hnone {β : Type} {f : Write → Option β}
        (hf : ∀ id readAt, f (.notificationUpdate id readAt) = none) :
        (found.map fun n => Write.notificationUpdate n.id s.db.clock).filterMap f = [] := by
      simp [List.filterMap_map, hf]
    refine h.commit me ?_ ?_
    · rw [hrows, hnone fun _ _ => rfl, List.append_nil]
    · rw [hpushed, hnone fun _ _ => rfl, List.append_nil]
  · refine h.commit me ?_ rfl
    exact (List.append_nil _).symm

end Log

-- A listener reads one user, and stores and pushes one notification at most.
theorem autocommits_onEvent {ok : {β : Type} → Stmt β → Prop} (huser : ∀ id, ok (.userFindUnique id))
    (hcreate : ∀ input id, ok (.notificationCreate input id))
    (hpush : ∀ room payload, ok (.push room payload)) (numberText : ℚ → String)
    (event : NotifyingEvent) (payload : Json) (id : String) :
    Rules.Autocommits ok (onEvent numberText event payload id) := by
  unfold onEvent
  split
  · have hloaded : Rules.Autocommits ok (loadParticipantSummary (loaded event payload)) := by
      cases loaded event payload with
      | none => trivial
      | some userId => exact ⟨huser userId, fun _ => trivial⟩
    refine hloaded.bind fun fromUser => ?_
    cases listener numberText (fun _ => fromUser) event payload with
    | none => trivial
    | some input => exact ⟨hcreate input id, fun _ => ⟨hpush _ _, fun _ => trivial⟩⟩
  · trivial

theorem InboxRequest.autocommits {numberText : ℚ → String} {p : Request Unit}
    (hp : InboxRequest numberText p) : Rules.Autocommits (fun _ => True) p := by
  cases hp with
  | onEvent event payload id =>
      exact autocommits_onEvent (fun _ => trivial) (fun _ _ => trivial) (fun _ _ => trivial) _ _ _ _
  | _ => exact ⟨trivial, fun _ => trivial⟩

-- What the listeners have done by the time the system is at `s`.
structure Delivered (w : World) (s : System Stmt World Write ApiError) : Prop where
  -- Every row that was there or has been stored since still is, unchanged but for `readAt`.
  kept : s.store.db.notifications.rows.map fresh =
    w.notifications.rows.map fresh ++ createdIn s.store.wal
  stored : ∀ k ∈ s.store.db.pushed, ∃ row ∈ s.store.db.notifications.rows, k = shownAs (fresh row)
  once : (s.store.db.pushed.map fun k => k.2.id).Nodup
  -- A listener that has answered has pushed what it stored.
  pushed : ∀ i, s.threads[i]? = some (.run (.pure ())) →
    ∀ row ∈ createdIn (s.store.own i), shownAs row ∈ s.store.db.pushed

abbrev inboxContract (w : World) : Contract Stmt World Write := .ofInv (InboxInv w) Guard.none

theorem inboxInv_of_reaches {numberText : ℚ → String} {w : World}
    {s : System Stmt World Write ApiError}
    (h : System.Reaches (InboxRequest numberText) Guard.none (System.init w) s) :
    InboxInv w s.store := by
  have hinit : InboxInv w ⟨w, []⟩ := ⟨(List.append_nil _).symm, (List.append_nil _).symm⟩
  have hsafe := System.Reaches.safe (C := inboxContract w)
    (fun p hp me st _ => Rules.wp_autocommits
      (fun _ s' _ _ _ hs' he => ⟨InboxInv.exec hs' me he, trivial⟩) hp.autocommits st)
    (fun _ _ hst => ⟨⟨hst.rows, hst.pushed⟩, trivial⟩) (System.init_safe hinit) h
  exact hsafe.1.inv

theorem delivered_of_reaches {numberText : ℚ → String} {w : World} (hw : w.pushed = [])
    {s : System Stmt World Write ApiError}
    (h : System.Reaches (InboxRequest numberText) Guard.none (System.init w) s) :
    Delivered w s := by
  have hinv := inboxInv_of_reaches h
  have hsettled : s.Settled stores pushes :=
    System.Reaches.settled (fun _ hp => hp.settles) (System.init_settled w) h
  have hlog : s.store.db.pushed = pushedIn s.store.wal := by rw [hinv.pushed, hw, List.nil_append]
  have hids : ((createdIn s.store.wal).map NotificationRow.id).Nodup := by
    have hall : (s.store.db.notifications.rows.map fresh).map NotificationRow.id =
        s.store.db.notifications.rows.map NotificationRow.id := by
      rw [List.map_map]
      rfl
    have hnodup := s.store.db.notifications.nodup
    rw [← hall, hinv.rows, List.map_append] at hnodup
    exact hnodup.of_append_right
  -- each push is that of a row that has been created
  have hpushes : s.store.db.pushed.Subperm ((createdIn s.store.wal).map shownAs) := by
    refine List.subperm_ext_iff.mpr fun k _ => ?_
    rw [hlog, count_pushedIn, count_createdIn]
    exact hsettled.le k
  refine ⟨hinv.rows, fun k hk => ?_, ?_, fun i hanswered row hrow => ?_⟩
  · obtain ⟨row, hrow, rfl⟩ := List.mem_map.mp (hpushes.subset hk)
    have hthere : row ∈ s.store.db.notifications.rows.map fresh :=
      hinv.rows ▸ List.mem_append_right _ hrow
    obtain ⟨stored, hstored, rfl⟩ := List.mem_map.mp hthere
    exact ⟨stored, hstored, rfl⟩
  · obtain ⟨pushed, hperm, hsub⟩ := hpushes
    have hshown : (((createdIn s.store.wal).map shownAs).map fun k => k.2.id).Nodup := by
      rw [List.map_map]
      exact hids
    exact (hperm.map _).nodup_iff.mp (hshown.sublist (hsub.map _))
  · have hcount := hsettled.answered hanswered (shownAs row)
    rw [← count_pushedIn, ← count_createdIn] at hcount
    have hown : shownAs row ∈ pushedIn (s.store.own i) :=
      List.count_pos_iff.mp (hcount ▸ List.count_pos_iff.mpr (List.mem_map_of_mem hrow))
    rw [hlog]
    exact mem_pushedIn_of_own hown

-- Ada and Bob, before anything has happened.
def quiet : World where
  clock := 0
  users := (Table.empty.insert ⟨"u1", "ada", some "Ada", none, 3⟩).insert ⟨"u2", "bob", none, none, 1⟩
  notifications := Table.empty
  pushed := []

def earned (xpAwarded : ℚ) : String := if xpAwarded = 100 then "100" else "some"

-- Ada completes a quest and asks Bob to be friends. The two listeners take turns.
theorem delivered_two_listeners : ∃ s : System Stmt World Write ApiError, Delivered quiet s ∧
    s.store.db.pushed.map (fun k => (k.1, k.2.type, k.2.body)) =
      [("user:u2", .FRIEND_REQUEST_RECEIVED, none),
        ("user:u1", .QUEST_COMPLETED, some "You earned 100 XP.")] := by
  let completed : Json := .obj [("userId", .str "u1"), ("questId", .str "q1"), ("xpAwarded", .num 100)]
  let sent : Json :=
    .obj [("requesterId", .str "u1"), ("addresseeId", .str "u2"), ("friendshipId", .str "f1")]
  have hps : ∀ p ∈ [onEvent earned .QuestCompleted completed "n1",
      onEvent earned .FriendRequestSent sent "n2"], InboxRequest earned p := by
    simp only [List.forall_mem_cons]
    exact ⟨.onEvent _ _ _, .onEvent _ _ _, by simp⟩
  obtain ⟨s, hs, hobs⟩ := System.exists_reaches_of_interleave (InboxRequest earned) Guard.none
    (System.init quiet) [onEvent earned .QuestCompleted completed "n1",
      onEvent earned .FriendRequestSent sent "n2"] [1, 0, 1, 1, 0]
    (fun s => s.store.db.pushed.map fun k => (k.1, k.2.type, k.2.body))
    [("user:u2", .FRIEND_REQUEST_RECEIVED, none),
      ("user:u1", .QUEST_COMPLETED, some "You earned 100 XP.")] hps (by decide +kernel)
  exact ⟨s, delivered_of_reaches rfl hs, hobs⟩

section Unread

-- What a statement does on behalf of someone else than the user.
def sparing (userId : String) : {β : Type} → Stmt β → Prop
  | _, .notificationMarkRead _ v => v ≠ userId
  | _, .notificationMarkAllRead v => v ≠ userId
  | _, _ => True

def storesFor (userId : String) : Write → Bool
  | .notificationCreate row => row.userId = userId
  | _ => false

-- The requests that leave the marking of the user's notifications to the user.
inductive SparingRequest (numberText : ℚ → String) (userId : String) : Request Unit → Prop where
  | onEvent (event : NotifyingEvent) (payload : Json) (id : String) :
      SparingRequest numberText userId (onEvent numberText event payload id)
  | countUnread (v : String) : SparingRequest numberText userId (countUnread v).void
  | markRead (id : String) {v : String} (hv : v ≠ userId) :
      SparingRequest numberText userId (markRead id v)
  | markAllRead {v : String} (hv : v ≠ userId) :
      SparingRequest numberText userId (markAllRead v)

theorem SparingRequest.autocommits {numberText : ℚ → String} {userId : String} {p : Request Unit}
    (hp : SparingRequest numberText userId p) : Rules.Autocommits (sparing userId) p := by
  cases hp with
  | onEvent event payload id =>
      exact autocommits_onEvent (fun _ => trivial) (fun _ _ => trivial) (fun _ _ => trivial) _ _ _ _
  | countUnread v => exact ⟨trivial, fun _ => trivial⟩
  | markRead id hv => exact ⟨hv, fun _ => trivial⟩
  | markAllRead hv => exact ⟨hv, fun _ => trivial⟩

-- The user's rows stay as they are, and the count grows with every new one.
structure Unmarked (userId : String) (w : World) (s : Store World Write) : Prop where
  rows : ∀ row ∈ w.notifications.rows, row.userId = userId → row ∈ s.db.notifications.rows
  unread : s.db.unread userId = w.unread userId + countOf (storesFor userId) s.wal

variable {userId : String} {w : World} {s : Store World Write}

theorem Unmarked.commit (h : Unmarked userId w s) (me : ℕ) {ws : List Write}
    (hrows : ∀ row ∈ s.db.notifications.rows, row.userId = userId →
      row ∈ (view Stmt s.db ws).notifications.rows)
    (hunread : (view Stmt s.db ws).unread userId =
      s.db.unread userId + ws.countP (storesFor userId)) :
    Unmarked userId w (s.commit Stmt me ws) := by
  cases ws with
  | nil => exact h
  | cons wr ws =>
      constructor
      · intro row hrow hmine
        rw [Store.commit_db]
        exact hrows row (h.rows row hrow hmine) hmine
      · rw [Store.commit_db, hunread, h.unread, Store.commit_wal_cons, countOf_concat, Nat.add_assoc]

variable (userId) in
-- Marking rows of others.
theorem rows_view_others {found : List NotificationRow} (w : World) (readAt : Time)
    (hfound : ∀ n ∈ found, ∀ row ∈ w.notifications.rows, row.id = n.id → row.userId ≠ userId) :
    (∀ row ∈ w.notifications.rows, row.userId = userId → row ∈
      (view Stmt w (found.map fun n => .notificationUpdate n.id readAt)).notifications.rows) ∧
    (view Stmt w (found.map fun n => .notificationUpdate n.id readAt)).unread userId =
      w.unread userId := by
  induction found generalizing w with
  | nil => exact ⟨fun _ h _ => h, rfl⟩
  | cons n rest ih =>
      let w' := w.apply (.notificationUpdate n.id readAt)
      have hothers := hfound n List.mem_cons_self
      have hrows (row : NotificationRow) (hrow : row ∈ w.notifications.rows)
          (hmine : row.userId = userId) : row ∈ w'.notifications.rows := by
        have hid : row.id ≠ n.id := fun hid => hothers row hrow hid hmine
        exact List.mem_map.mpr ⟨row, hrow, if_neg hid⟩
      have hunread : w'.unread userId = w.unread userId := by
        simp only [World.unread, Table.count_eq_sum, w', World.apply]
        refine Table.sum_modify_of_eq _ _ _ _ _ fun row hrow => ?_
        have hne := hothers row (Table.mem_of_find? hrow) (Table.key_of_find? hrow)
        simp [NotificationRow.read, hne]
      obtain ⟨hrest, hcount⟩ := ih w' fun m hm row hrow hid => by
        obtain ⟨old, hold, rfl⟩ := List.mem_map.mp hrow
        have hsame : (if old.id = n.id then NotificationRow.read readAt old else old).id = old.id ∧
            (if old.id = n.id then NotificationRow.read readAt old else old).userId = old.userId := by
          split <;> exact ⟨rfl, rfl⟩
        rw [hsame.2]
        exact hfound m (List.mem_cons_of_mem _ hm) old hold (hsame.1 ▸ hid)
      exact ⟨fun row hrow hmine => hrest row (hrows row hrow hmine) hmine, hcount.trans hunread⟩

theorem countP_storesFor_read (found : List NotificationRow) (readAt : Time) :
    (found.map fun n => Write.notificationUpdate n.id readAt).countP (storesFor userId) = 0 := by
  simp [storesFor]

theorem Unmarked.markRows (h : Unmarked userId w s) (me : ℕ) {p : NotificationRow → Bool}
    (hp : ∀ n ∈ s.db.notifications.rows, p n = true → n.userId ≠ userId) :
    Unmarked userId w (s.commit Stmt me ((s.db.notifications.rows.filter p).map fun n =>
      .notificationUpdate n.id s.db.clock)) := by
  obtain ⟨hrows, hunread⟩ := rows_view_others userId s.db s.db.clock
    fun n (hn : n ∈ s.db.notifications.rows.filter p) row hrow hid => by
      obtain ⟨hmem, hpn⟩ := List.mem_filter.mp hn
      have hsame : row = n := List.inj_on_of_nodup_map s.db.notifications.nodup hrow hmem hid
      exact hsame ▸ hp n hmem hpn
  refine h.commit me hrows ?_
  rw [hunread, countP_storesFor_read, Nat.add_zero]

theorem Unmarked.exec (h : Unmarked userId w s) (me : ℕ) {β : Type} {st : Stmt β} {b : β}
    {ws : List Write} (hst : sparing userId st) (he : Stmt.exec st s.db = .ok (b, ws)) :
    Unmarked userId w (s.commit Stmt me ws) := by
  cases st with
  | userFindUnique id =>
      cases he
      exact h
  | notificationCreate input id =>
      simp only [Stmt.exec] at he
      split_ifs at he with hfree
      cases he
      have hnone : s.db.notifications.find? id = none := by simpa using hfree
      refine h.commit me (fun row hrow _ => ?_) ?_
      · have hinsert : (s.db.notifications.insert (create input id s.db.clock)).rows =
            s.db.notifications.rows ++ [create input id s.db.clock] := Table.rows_insert hnone
        exact hinsert ▸ List.mem_append_left _ hrow
      · refine (Table.count_insert hnone _).trans ?_
        simp [World.unread, create, storesFor]
  | notificationMarkRead id v =>
      cases he
      refine h.markRows me fun n _ hn hmine => hst ?_
      rw [← hmine]
      exact (of_decide_eq_true hn).2.symm
  | notificationMarkAllRead v =>
      cases he
      refine h.markRows me fun n _ hn hmine => hst ?_
      rw [← hmine]
      exact (of_decide_eq_true hn).1.symm
  | notificationCountUnread v =>
      cases he
      exact h
  | push room payload =>
      cases he
      exact h.commit me (fun row hrow _ => hrow) rfl

end Unread

abbrev unmarkedContract (userId : String) (w : World) : Contract Stmt World Write :=
  .ofInv (Unmarked userId w) Guard.none

-- Whatever the listeners do and the others mark, a user who marks nothing keeps every
-- notification as it is, and the count of the unread is what has come in since.
theorem unmarked_of_reaches {numberText : ℚ → String} {userId : String} {w : World}
    {s : System Stmt World Write ApiError}
    (h : System.Reaches (SparingRequest numberText userId) Guard.none (System.init w) s) :
    (∀ row ∈ w.notifications.rows, row.userId = userId → row ∈ s.store.db.notifications.rows) ∧
      s.store.db.unread userId = w.unread userId + countOf (storesFor userId) s.store.wal := by
  have hinit : Unmarked userId w ⟨w, []⟩ := ⟨fun _ hrow _ => hrow, rfl⟩
  have hsafe := System.Reaches.safe (C := unmarkedContract userId w)
    (fun p hp me st _ => Rules.wp_autocommits
      (fun _ s' _ _ hok hs' he => ⟨Unmarked.exec hs' me hok he, trivial⟩) hp.autocommits st)
    (fun _ _ hst => ⟨⟨hst.rows, hst.unread⟩, trivial⟩) (System.init_safe hinit) h
  exact ⟨hsafe.1.inv.rows, hsafe.1.inv.unread⟩

-- Ada has one notification that she has not read.
def waiting : World where
  clock := 0
  users := quiet.users
  notifications := Table.empty.insert
    (create ⟨"u1", .LEVEL_UP, "You reached level 2!", none, none⟩ "n0" 0)
  pushed := []

-- Bob marks what he can, also by the id of Ada's notification, while Ada completes a quest.
theorem unmarked_bob_marks : ∃ s : System Stmt World Write ApiError,
    ((∀ row ∈ waiting.notifications.rows, row.userId = "u1" → row ∈ s.store.db.notifications.rows) ∧
      s.store.db.unread "u1" = waiting.unread "u1" + countOf (storesFor "u1") s.store.wal) ∧
    s.store.db.unread "u1" = 2 := by
  let completed : Json := .obj [("userId", .str "u1"), ("questId", .str "q1"), ("xpAwarded", .num 100)]
  let ps := [onEvent earned .QuestCompleted completed "n1", markRead "n0" "u2", markAllRead "u2"]
  have hps : ∀ p ∈ ps, SparingRequest earned "u1" p := by
    simp only [ps, List.forall_mem_cons]
    exact ⟨.onEvent _ _ _, .markRead _ (by decide), .markAllRead (by decide), by simp⟩
  obtain ⟨s, hs, hobs⟩ := System.exists_reaches_of_interleave (SparingRequest earned "u1") Guard.none
    (System.init waiting) ps [0, 1, 2, 0] (fun s => s.store.db.unread "u1") 2 hps (by decide +kernel)
  exact ⟨s, unmarked_of_reaches hs, hobs⟩

end Inbox

end SideQuest
