import SideQuest.Model.Presence
import SideQuest.Lib.Outbox

-- What a list of friends says of them, over every interleaving of the requests that leave
-- their marks in `lastSeenAt`.

namespace SideQuest

namespace Presence

open ReadCommitted

inductive PresenceRequest : Request Unit → Prop
  | intercept (userId : Id) : PresenceRequest (intercept userId)
  | listFriends (orders : FriendOrders) (userId : Id) :
      PresenceRequest (listFriends orders userId).void

def stampOf (userId : Id) : Write → Option Time
  | .lastSeenAt v now => if v = userId then some now else none
  | _ => none

-- When `lastSeenAt` of the user was set.
def stampTimes (userId : Id) (log : List (ℕ × List Write)) : List Time :=
  (written log).filterMap fun entry => stampOf userId entry.2

def touchOf (userId : Id) : Write → Option Time
  | .touched v arrived => if v = userId then some arrived else none
  | _ => none

-- When the requests of the user came in whose `touchLastSeen` has been answered.
def touchTimes (userId : Id) (log : List (ℕ × List Write)) : List Time :=
  (written log).filterMap fun entry => touchOf userId entry.2

def Noted (i : ℕ) (wr : Write) (log : List (ℕ × List Write)) : Prop := (i, wr) ∈ written log

-- The user was stamped then by a request of his own that had come in.
def StampedBy (userId : Id) (t : Time) (log : List (ℕ × List Write)) : Prop :=
  ∃ i, Noted i (.lastSeenAt userId t) log ∧ ∃ arrived ≤ t, Noted i (.visit userId arrived) log

-- Two times that are more than a minute apart.
def Apart (t t' : Time) : Prop := t + 60000 < t'

def Gone (userId : Id) (w : World) : Prop :=
  userId ∈ w.givenIds ∧ w.social.users.find? userId = none

-- The stamp is at most a minute older than the time, unless the user has been deleted.
def Stamped (userId : Id) (t : Time) (w : World) : Prop :=
  (∃ t' ∈ w.lastSeenAt userId, t ≤ t' + 60000) ∨ Gone userId w

structure Later (w w' : World) : Prop where
  clock : w.clock ≤ w'.clock
  stamps : ∀ u, ∀ t ∈ w.lastSeenAt u, ∃ t' ∈ w'.lastSeenAt u, t ≤ t'
  givenIds : w.givenIds ⊆ w'.givenIds
  gone : ∀ u, Gone u w → Gone u w'

theorem Later.refl (w : World) : Later w w :=
  ⟨le_rfl, fun _ t ht => ⟨t, ht, le_rfl⟩, fun _ => id, fun _ => id⟩

theorem Later.trans {w w' w'' : World} (h : Later w w') (h' : Later w' w'') : Later w w'' where
  clock := h.clock.trans h'.clock
  stamps u t ht := by
    obtain ⟨t', ht', hle⟩ := h.stamps u t ht
    obtain ⟨t'', ht'', hle'⟩ := h'.stamps u t' ht'
    exact ⟨t'', ht'', hle.trans hle'⟩
  givenIds := List.Subset.trans h.givenIds h'.givenIds
  gone u hu := h'.gone u (h.gone u hu)

theorem Stamped.later {u : Id} {t : Time} {w w' : World} (h : Stamped u t w) (hlater : Later w w') :
    Stamped u t w' := by
  rcases h with ⟨t', ht', hle⟩ | hgone
  · obtain ⟨t'', ht'', hle'⟩ := hlater.stamps u t' ht'
    exact Or.inl ⟨t'', ht'', hle.trans (add_le_add_left hle' _)⟩
  · exact Or.inr (hlater.gone u hgone)

-- `before` is the world in which the run began.
structure PresenceInv (before : World) (s : Store World Write) : Prop where
  known : ∀ u ∈ s.db.social.users.rows, u.id ∈ s.db.givenIds
  seen : ∀ u, ∀ t ∈ s.db.lastSeenAt u, t ≤ s.db.clock ∧
    (before.lastSeenAt u = some t ∨ StampedBy u t s.wal)
  touched : ∀ u, ∀ t ∈ touchTimes u s.wal, Stamped u t s.db
  latest : ∀ u, ∀ t ∈ stampTimes u s.wal, ∃ t' ∈ s.db.lastSeenAt u, t ≤ t'
  spaced : ∀ u, (stampTimes u s.wal).Pairwise Apart

variable {before w : World} {s : Store World Write} {me : ℕ} {userId : Id}

theorem stampTimes_concat (u : Id) (log : List (ℕ × List Write)) (ws : List Write) :
    stampTimes u (log ++ [(me, ws)]) = stampTimes u log ++ ws.filterMap (stampOf u) :=
  filterMap_written_concat _ _ _ _

theorem touchTimes_concat (u : Id) (log : List (ℕ × List Write)) (ws : List Write) :
    touchTimes u (log ++ [(me, ws)]) = touchTimes u log ++ ws.filterMap (touchOf u) :=
  filterMap_written_concat _ _ _ _

theorem noted_concat {i : ℕ} {wr : Write} {log : List (ℕ × List Write)} {ws : List Write} :
    Noted i wr (log ++ [(me, ws)]) ↔ Noted i wr log ∨ i = me ∧ wr ∈ ws := by
  simp only [Noted, written, List.flatMap_append, List.mem_append, List.flatMap_singleton,
    List.mem_map, Prod.mk.injEq]
  refine or_congr_right ⟨?_, ?_⟩
  · rintro ⟨wr', hwr', rfl, rfl⟩
    exact ⟨rfl, hwr'⟩
  · rintro ⟨rfl, hwr⟩
    exact ⟨wr, hwr, rfl, rfl⟩

theorem StampedBy.concat {t : Time} {log : List (ℕ × List Write)} (h : StampedBy userId t log)
    (ws : List Write) : StampedBy userId t (log ++ [(me, ws)]) := by
  obtain ⟨i, hstamp, arrived, hle, hvisit⟩ := h
  exact ⟨i, noted_concat.mpr (Or.inl hstamp), arrived, hle, noted_concat.mpr (Or.inl hvisit)⟩

-- A commit for the log only.
theorem PresenceInv.commit_note (h : PresenceInv before s) {wr : Write}
    (hnone : ∀ u, stampOf u wr = none) (hdb : (s.commit Stmt me [wr]).db = s.db)
    (htouched : ∀ u t, touchOf u wr = some t → Stamped u t s.db) :
    PresenceInv before (s.commit Stmt me [wr]) := by
  have htimes (u : Id) : stampTimes u (s.commit Stmt me [wr]).wal = stampTimes u s.wal := by
    rw [Store.commit_wal_cons, stampTimes_concat, List.filterMap_cons_none (hnone u)]
    exact List.append_nil _
  refine ⟨?_, fun u t ht => ?_, fun u t ht => ?_, fun u t ht => ?_, fun u => ?_⟩
  · rw [hdb]
    exact h.known
  · rw [hdb] at ht ⊢
    obtain ⟨hle, hsource⟩ := h.seen u t ht
    exact ⟨hle, hsource.imp_right fun hstamped => hstamped.concat _⟩
  · rw [hdb]
    rw [Store.commit_wal_cons, touchTimes_concat, List.mem_append] at ht
    rcases ht with hold | hnew
    · exact h.touched u t hold
    · obtain ⟨wr', hwr', ht⟩ := List.mem_filterMap.mp hnew
      exact htouched u t (List.mem_singleton.mp hwr' ▸ ht)
  · rw [hdb]
    exact h.latest u t (htimes u ▸ ht)
  · rw [htimes]
    exact h.spaced u

section Stamp

variable (s userId) in
theorem lastSeenAt_self :
    (s.db.apply (.lastSeenAt userId s.db.clock)).lastSeenAt userId = some s.db.clock :=
  Function.update_self _ _ _

theorem lastSeenAt_ne {u : Id} (hu : u ≠ userId) :
    (s.db.apply (.lastSeenAt userId s.db.clock)).lastSeenAt u = s.db.lastSeenAt u :=
  Function.update_of_ne hu _ _

-- Nothing is after the clock.
theorem PresenceInv.later_stamp (h : PresenceInv before s) (userId : Id) :
    Later s.db (s.db.apply (.lastSeenAt userId s.db.clock)) := by
  refine ⟨le_rfl, fun u t ht => ?_, fun _ => id, fun _ => id⟩
  by_cases hu : u = userId
  · subst hu
    exact ⟨_, lastSeenAt_self s u, (h.seen u t ht).1⟩
  · exact ⟨t, lastSeenAt_ne hu ▸ ht, le_rfl⟩

-- A stamp after more than a minute, by a request that has come in.
theorem PresenceInv.stamp (h : PresenceInv before s)
    (hstale : stale s.db.clock (s.db.lastSeenAt userId) = true) {arrived : Time}
    (hle : arrived ≤ s.db.clock) (harrived : Noted me (.visit userId arrived) s.wal) :
    PresenceInv before (s.commit Stmt me [.lastSeenAt userId s.db.clock]) := by
  have hlast : ∀ t ∈ s.db.lastSeenAt userId, t + 60000 < s.db.clock := fun t ht => by
    have hlt : t < s.db.clock - 60000 := by
      simpa [Option.mem_def.mp ht, stale] using hstale
    exact lt_sub_iff_add_lt.mp hlt
  have hlater := h.later_stamp userId
  have hdb : (s.commit Stmt me [.lastSeenAt userId s.db.clock]).db =
      s.db.apply (.lastSeenAt userId s.db.clock) := rfl
  have htimes (u : Id) : stampTimes u (s.commit Stmt me [.lastSeenAt userId s.db.clock]).wal =
      stampTimes u s.wal ++ (if userId = u then [s.db.clock] else []) := by
    rw [Store.commit_wal_cons, stampTimes_concat]
    by_cases hu : userId = u <;> simp [stampOf, hu]
  constructor
  · exact h.known
  · intro u t ht
    rw [hdb] at ht
    by_cases hu : u = userId
    · subst hu
      obtain rfl := Option.some.inj ((lastSeenAt_self s u).symm.trans ht)
      exact ⟨le_rfl, Or.inr ⟨me, noted_concat.mpr (Or.inr ⟨rfl, List.mem_cons_self⟩), arrived, hle,
        noted_concat.mpr (Or.inl harrived)⟩⟩
    · obtain ⟨hle', hsource⟩ := h.seen u t (lastSeenAt_ne hu ▸ ht)
      exact ⟨hle', hsource.imp_right fun hstamped => hstamped.concat _⟩
  · intro u t ht
    have hold : t ∈ touchTimes u s.wal := by
      rw [Store.commit_wal_cons, touchTimes_concat] at ht
      simpa [touchOf] using ht
    exact (h.touched u t hold).later hlater
  · intro u t ht
    rw [htimes, List.mem_append] at ht
    rcases ht with hold | hnew
    · obtain ⟨t', ht', hle'⟩ := h.latest u t hold
      obtain ⟨t'', ht'', hle''⟩ := hlater.stamps u t' ht'
      exact ⟨t'', ht'', hle'.trans hle''⟩
    · split at hnew
      · rename_i hu
        subst hu
        exact ⟨_, lastSeenAt_self s userId, (List.mem_singleton.mp hnew).le⟩
      · exact absurd hnew List.not_mem_nil
  · intro u
    rw [htimes]
    split
    · rename_i hu
      subst hu
      refine List.pairwise_append.mpr ⟨h.spaced _, List.pairwise_singleton _ _, ?_⟩
      intro t ht t' ht'
      obtain ⟨last, hin, hle'⟩ := h.latest _ t ht
      rw [List.mem_singleton.mp ht']
      exact (add_le_add_left hle' _).trans_lt (hlast last hin)
    · rw [List.append_nil]
      exact h.spaced u

end Stamp

section Others

theorem find?_change_of_gone {u : Id} (hgone : Gone u w) (social : Social) :
    (w.change social).social.users.find? u = none := by
  refine Table.find?_eq_none_iff.mpr fun row hrow hid => ?_
  have hkept := of_decide_eq_true (List.mem_filter.mp hrow).2
  rw [hid] at hkept
  rcases hkept with hthere | hnew
  · rw [hgone.2] at hthere
    cases hthere
  · exact hnew hgone.1

theorem Later.happen (w : World) (change : ℕ × Social) : Later w (Backend.happen Stmt change w) where
  clock := le_add_of_nonneg_right (Int.natCast_nonneg _)
  stamps _ t ht := ⟨t, ht, le_rfl⟩
  givenIds := List.subset_append_left _ _
  gone _ hgone := ⟨List.mem_append_left _ hgone.1, find?_change_of_gone hgone change.2⟩

theorem PresenceInv.happen (h : PresenceInv before s) (change : ℕ × Social) :
    PresenceInv before { s with db := Backend.happen Stmt change s.db } where
  known u hu := List.mem_append_right _ (List.mem_map_of_mem hu)
  seen u t ht := by
    obtain ⟨hclock, hsource⟩ := h.seen u t ht
    exact ⟨hclock.trans (Later.happen s.db change).clock, hsource⟩
  touched u t ht := (h.touched u t ht).later (.happen s.db change)
  latest := h.latest
  spaced := h.spaced

end Others

abbrev presenceContract (before : World) : Contract Stmt World Write where
  inv := PresenceInv before
  guar s s' := Later s.db s'.db
  guard := Guard.none
  guar_refl s := Later.refl s.db
  guar_trans := Later.trans

-- The update leaves a stamp that is recent enough for its request.
theorem wp_intercept : (presenceContract before).rules.wp me (fun _ _ => True) (intercept userId) s := by
  unfold intercept
  refine Rules.wp_call fun s₁ h₁ _ arrived ws he => ?_
  simp only [Backend.exec, Stmt.exec] at he
  split_ifs at he with hthere
  cases he
  have hvisit : PresenceInv before (s₁.commit Stmt me [.visit userId s₁.db.clock]) :=
    h₁.1.commit_note (fun _ => rfl) rfl fun _ _ ht => by cases ht
  refine ⟨⟨hvisit, Later.refl _⟩, ?_⟩
  have hgiven : userId ∈ s₁.db.givenIds := by
    obtain ⟨user, huser⟩ : ∃ user, s₁.db.social.users.find? userId = some user :=
      Option.ne_none_iff_exists'.mp (by simpa using hthere)
    exact Table.key_of_find? huser ▸ h₁.1.known user (Table.mem_of_find? huser)
  refine Rules.wp_call fun s₂ h₂ _ _ ws he => ?_
  have hlater₂ : Later s₁.db s₂.db := h₂.2.1
  have hle : s₁.db.clock ≤ s₂.db.clock := hlater₂.clock
  -- others do not write into the log of this request
  have harrived : Noted me (.visit userId s₁.db.clock) s₂.wal := by
    have hown : s₂.own me = s₁.own me ++ [(me, [.visit userId s₁.db.clock])] :=
      h₂.2.2.2.trans (Store.own_commit_self _ _ _ _)
    have hmem : Noted me (.visit userId s₁.db.clock) (s₂.own me) := by
      rw [hown]
      exact noted_concat.mpr (Or.inr ⟨rfl, List.mem_cons_self⟩)
    rw [Noted, Store.own, written_own] at hmem
    exact List.mem_of_mem_filter hmem
  -- what is noted once the update has been answered
  have hnote {s₃ : Store World Write} (hstamped : Stamped userId s₁.db.clock s₃.db) :
      (presenceContract before).rules.wp me (fun _ _ => True)
        (Prog.call (.noteTouched userId s₁.db.clock) : Request Unit) s₃ := by
    refine fun s₄ h₄ _ _ ws he => ?_
    cases he
    have hlater₄ : Later s₃.db s₄.db := h₄.2.1
    refine ⟨⟨h₄.1.commit_note (fun _ => rfl) rfl fun u t ht => ?_, Later.refl _⟩, fun _ _ => trivial⟩
    obtain ⟨rfl, rfl⟩ : userId = u ∧ s₁.db.clock = t := by simpa [touchOf] using ht
    exact hstamped.later hlater₄
  simp only [Backend.exec, Stmt.exec] at he
  split_ifs at he with hstale
  · cases he
    refine ⟨⟨h₂.1.stamp hstale.2 hle harrived, h₂.1.later_stamp userId⟩, hnote (Or.inl ?_)⟩
    exact ⟨_, lastSeenAt_self s₂ userId, hle.trans (le_add_of_nonneg_right (by decide))⟩
  · cases he
    refine ⟨Rules.commits_nil h₂.1, hnote ?_⟩
    by_cases huser : (s₂.db.social.users.find? userId).isSome
    · obtain ⟨t, ht, hrecent⟩ : ∃ t ∈ s₂.db.lastSeenAt userId, s₂.db.clock - 60000 ≤ t := by
        simpa [huser, stale, Option.all_eq_false] using hstale
      exact Or.inl ⟨t, ht, hle.trans (sub_le_iff_le_add.mp hrecent)⟩
    · exact Or.inr ⟨hlater₂.givenIds hgiven, by simpa using huser⟩

theorem PresenceRequest.wp {p : Request Unit} (hp : PresenceRequest p) :
    (presenceContract before).rules.wp me (fun _ _ => True) p s := by
  cases hp with
  | intercept userId => exact wp_intercept
  | listFriends orders userId =>
      exact Rules.wp_void (Rules.wp_query (fun _ => rfl) fun _ _ _ _ => trivial)

-- A world in which nothing has been noted.
structure Unnoted (w : World) : Prop where
  known : ∀ u ∈ w.social.users.rows, u.id ∈ w.givenIds
  past : ∀ u, ∀ t ∈ w.lastSeenAt u, t ≤ w.clock

theorem presenceInv_of_reaches {s : System Stmt World Write ApiError} (hw : Unnoted w)
    (h : System.Reaches PresenceRequest Guard.none (System.init w) s) : PresenceInv w s.store := by
  have hinit : PresenceInv w ⟨w, []⟩ :=
    ⟨hw.known, fun u t ht => ⟨hw.past u t ht, Or.inl ht⟩, fun u t ht => absurd ht List.not_mem_nil,
      fun u t ht => absurd ht List.not_mem_nil, fun u => List.Pairwise.nil⟩
  have hsafe := System.Reaches.safe (C := presenceContract w) (fun p hp me st _ => hp.wp)
    (fun change st hst => ⟨hst.happen change, .happen st.db change⟩) (System.init_safe hinit) h
  exact hsafe.1.inv

-- What the three words say of a friend.
structure Shown (before : World) (s : Store World Write) (dto : FriendSummaryDto) : Prop where
  offline : dto.status = .OFFLINE → ∀ t ∈ touchTimes dto.id s.wal, t + 240000 ≤ s.db.clock
  online : dto.status = .ONLINE → ∃ t, s.db.lastSeenAt dto.id = some t ∧ s.db.clock < t + 300000 ∧
    (before.lastSeenAt dto.id = some t ∨ StampedBy dto.id t s.wal)
  questing : dto.status = .QUESTING → ∃ c ∈ underWay s.db dto.id,
    (∀ c' ∈ underWay s.db dto.id, c'.startedAt ≤ c.startedAt) ∧
      ∀ quest ∈ dto.currentQuest, quest.1 = c.questId

section Rows

variable {orders : FriendOrders} {userId : Id} {dto : FriendSummaryDto}

theorem parse_presenceOf (w : World) (currentQuest : Option Id) (lastSeenAt : Option Time) :
    parseFriendPresenceStatus (presenceOf w currentQuest lastSeenAt) =
      if currentQuest.isSome then .QUESTING
      else if lastSeenAt.any fun t => t > w.clock - 300000 then .ONLINE else .OFFLINE := by
  unfold presenceOf
  split_ifs <;> decide

theorem exists_user_of_mem (h : dto ∈ (queryRows orders w userId).map toSummary) :
    ∃ u, (w.social.users.find? u.id).isSome ∧ dto = toSummary (friendRow orders w userId u) := by
  obtain ⟨row, hrow, rfl⟩ := List.mem_map.mp h
  obtain ⟨joined, hjoined, rfl⟩ := List.mem_map.mp hrow
  have hmem := (orders.friends.answers _).perm.subset hjoined
  obtain ⟨fr, _, hfr⟩ := List.mem_filterMap.mp hmem
  obtain ⟨u, hu, rfl⟩ := Option.map_eq_some_iff.mp hfr
  exact ⟨u, Option.isSome_iff_exists.mpr ⟨u, Table.find?_of_mem (Table.mem_of_find? hu)⟩, rfl⟩

theorem latest_of_currentQuestId {friendId questId : Id}
    (h : currentQuestId orders w friendId = some questId) : ∃ c ∈ underWay w friendId,
      c.questId = questId ∧ ∀ c' ∈ underWay w friendId, c'.startedAt ≤ c.startedAt := by
  obtain ⟨c, hc, rfl⟩ := Option.map_eq_some_iff.mp h
  obtain ⟨hmem, hlatest⟩ := (orders.started.answers (underWay w friendId)).head?_le hc
  exact ⟨c, hmem, rfl, fun c' hc' => OrderDual.toDual_le_toDual.mp (hlatest c' hc')⟩

theorem PresenceInv.shown (h : PresenceInv before s)
    (hdto : dto ∈ (queryRows orders s.db userId).map toSummary) : Shown before s dto := by
  obtain ⟨u, huser, rfl⟩ := exists_user_of_mem hdto
  have hstatus : (toSummary (friendRow orders s.db userId u)).status =
      if (currentQuestId orders s.db u.id).isSome then .QUESTING
      else if (s.db.lastSeenAt u.id).any fun t => t > s.db.clock - 300000 then .ONLINE
      else .OFFLINE := parse_presenceOf _ _ _
  constructor
  · intro hoffline t ht
    rw [hstatus] at hoffline
    split_ifs at hoffline with hcq honline
    obtain ⟨t', ht', hle⟩ := (h.touched u.id t ht).resolve_right fun hgone => by
      rw [hgone.2] at huser
      cases huser
    have hold : t' ≤ s.db.clock - 300000 := by
      simpa [Option.mem_def.mp ht'] using honline
    simp only [Time] at *
    omega
  · intro honline
    rw [hstatus] at honline
    split_ifs at honline with hcq hrecent
    obtain ⟨t, ht, hlt⟩ := (Option.any_eq_true _ _).mp hrecent
    refine ⟨t, ht, ?_, (h.seen u.id t ht).2⟩
    exact sub_lt_iff_lt_add.mp (of_decide_eq_true hlt)
  · intro hquesting
    rw [hstatus] at hquesting
    split_ifs at hquesting with hcq
    obtain ⟨questId, hquestId⟩ := Option.isSome_iff_exists.mp hcq
    obtain ⟨c, hc, hid, hlatest⟩ := latest_of_currentQuestId hquestId
    refine ⟨c, hc, hlatest, fun quest hquest => ?_⟩
    have hcurrent : (toSummary (friendRow orders s.db userId u)).currentQuest =
        (currentQuestId orders s.db u.id).bind fun id =>
          (truthy ((currentQuestId orders s.db u.id).bind s.db.social.questTitles)).map
            fun title => (id, title) := rfl
    rw [hcurrent, hquestId] at hquest
    obtain ⟨title, _, rfl⟩ := Option.map_eq_some_iff.mp hquest
    exact hid.symm

end Rows

-- In every list of friends that can be asked for in a state that is reached.
theorem shown_of_reaches {s : System Stmt World Write ApiError} (hw : Unnoted w)
    (h : System.Reaches PresenceRequest Guard.none (System.init w) s) :
    (∀ orders userId, ∀ dto ∈ (queryRows orders s.store.db userId).map toSummary,
      Shown w s.store dto) ∧
    ∀ userId, (stampTimes userId s.store.wal).Pairwise Apart := by
  have hinv := presenceInv_of_reaches hw h
  exact ⟨fun _ _ _ hdto => hinv.shown hdto, hinv.spaced⟩

def firstFriends : Social where
  users := (Table.empty.insert { id := 1, username := "ada" }).insert { id := 2, username := "bob" }
  friendships := Table.empty.insert
    { id := 1, requesterId := 1, addresseeId := 2, status := .ACCEPTED, createdAt := 0, updatedAt := 0 }
  completions := (Table.empty.insert
    { userId := 1, questId := 7, status := .COMPLETED, startedAt := 0 }).insert
      { userId := 2, questId := 7, status := .COMPLETED, startedAt := 0 }
  questTitles _ := none

def nobodySeen : World where
  clock := 0
  lastSeenAt _ := none
  social := firstFriends
  givenIds := [1, 2]

def plainFriendOrders : FriendOrders where
  started := ⟨_, Paging.answers_insertionSort startedOrderBy.key⟩
  friends := ⟨_, Paging.answers_insertionSort friendsOrderBy.key⟩

theorem unnoted_nobodySeen : Unnoted nobodySeen where
  known u hu := by
    rcases List.mem_cons.mp hu with rfl | hu
    · decide
    · obtain rfl := List.mem_singleton.mp hu
      decide
  past _ t ht := absurd ht (Option.not_mem_none t)

-- Bob comes by at once, after half a minute and after a minute and a half; the second visit
-- leaves no mark, and the update of the third runs ten seconds late. A fourth visit is cut
-- off before its update. Later his friend sees that he is there.
theorem shown_bob_online : ∃ s : System Stmt World Write ApiError,
    ((∀ orders userId, ∀ dto ∈ (queryRows orders s.store.db userId).map toSummary,
      Shown nobodySeen s.store dto) ∧
      ∀ userId, (stampTimes userId s.store.wal).Pairwise Apart) ∧
    (stampTimes 2 s.store.wal, touchTimes 2 s.store.wal) = ([0, 100000], [0, 30000, 90000]) ∧
    ((queryRows plainFriendOrders s.store.db 1).map toSummary).map (fun dto => (dto.id, dto.status)) =
      [(2, .ONLINE)] := by
  let visit (i : ℕ) : List (Choice Stmt ApiError (ℕ × Social)) := [.spawn (intercept 2), .next i]
  let schedule : List (Choice Stmt ApiError (ℕ × Social)) :=
    visit 0 ++ [.next 0, .next 0, .happen (30000, firstFriends)] ++ visit 1 ++
      [.next 1, .next 1, .happen (60000, firstFriends)] ++ visit 2 ++
      [.happen (10000, firstFriends), .next 2, .next 2, .happen (100000, firstFriends)] ++ visit 3 ++
      [.kill 3 .aborted]
  have hplay : (System.play Guard.none (System.init nobodySeen) schedule).map (fun s =>
      ((stampTimes 2 s.store.wal, touchTimes 2 s.store.wal),
        ((queryRows plainFriendOrders s.store.db 1).map toSummary).map
          fun dto => (dto.id, dto.status))) =
      some (([0, 100000], [0, 30000, 90000]), [(2, .ONLINE)]) := by decide +kernel
  obtain ⟨s, hs, hobs⟩ := Option.map_eq_some_iff.mp hplay
  have hps : ∀ p, .spawn p ∈ schedule → PresenceRequest p := by
    intro p hp
    have hsame : p = intercept 2 := by simpa [schedule, visit] using hp
    exact hsame ▸ .intercept 2
  exact ⟨s, shown_of_reaches unnoted_nobodySeen (System.reaches_of_play hps hs), Prod.mk.inj hobs⟩

end Presence

end SideQuest
