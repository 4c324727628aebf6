import SideQuest.Lib.Completes
import SideQuest.Lib.Outbox

-- Requests that are refused in time: none that fails of its own has committed a write
-- that should last, judged by the data it was committed to. Who is killed is not refused.

namespace ReadCommitted

variable {Stmt : Type → Type} {σ ω ℓ ε η : Type} [Backend Stmt σ ω ℓ ε η]

section

variable (le : σ → σ → Prop) (lasts : σ → ω → Bool)

-- What a transaction may commit, and the committed data when it does.
def TxEnds {α : Type} (Q : List ω → α → σ → Prop) : Tx Stmt ε α → List ω → σ → Prop
  | .pure a, ws, db => ∀ db', le db db' → Q ws a db'
  | .throw _, _, _ => True
  | .stmt st k, ws, db => ∀ db', le db db' →
      ∀ b ws', Backend.exec st (view Stmt db' ws) = .ok (b, ws') →
        TxEnds Q (k b) (ws ++ ws') db'

-- `done` says whether a lasting write has been committed. From then on nothing fails.
def InTime {α : Type} (Q : Bool → α → σ → Prop) : Bool → Prog Stmt ε α → σ → Prop
  | done, .pure a, db => ∀ db', le db db' → Q done a db'
  | done, .throw _, _ => done = false
  | done, .stmt st k, db => ∀ db', le db db' →
      (done = true → (Backend.exec st db').isOk) ∧
        ∀ b ws, Backend.exec st db' = .ok (b, ws) →
          InTime Q (done || ws.any (lasts db')) (k b) (view Stmt db' ws)
  | done, .tx body k, db => done = false ∧
      TxEnds le (fun ws b db' => InTime Q (ws.any (lasts db')) (k b) (view Stmt db' ws)) body [] db

end

variable {le : σ → σ → Prop} {lasts : σ → ω → Bool} {α β : Type}

theorem TxEnds.mono {Q Q' : List ω → α → σ → Prop} (hQ : ∀ ws a db, Q ws a db → Q' ws a db)
    {p : Tx Stmt ε α} {ws : List ω} {db : σ} (h : TxEnds le Q p ws db) : TxEnds le Q' p ws db := by
  induction p generalizing ws db with
  | pure a => exact fun db' hdb => hQ ws a db' (h db' hdb)
  | throw e => trivial
  | stmt st k ih => exact fun db' hdb b ws' he => ih b (h db' hdb b ws' he)

theorem InTime.mono {Q Q' : Bool → α → σ → Prop} (hQ : ∀ done a db, Q done a db → Q' done a db)
    {p : Prog Stmt ε α} {done : Bool} {db : σ} (h : InTime le lasts Q done p db) :
    InTime le lasts Q' done p db := by
  induction p generalizing done db with
  | pure a => exact fun db' hdb => hQ done a db' (h db' hdb)
  | throw e => exact h
  | stmt st k ih =>
      intro db' hdb
      obtain ⟨hok, hnext⟩ := h db' hdb
      exact ⟨hok, fun b ws he => ih b (hnext b ws he)⟩
  | tx body k ih => exact ⟨h.1, h.2.mono fun ws b db' hk => ih b hk⟩

section Rules

variable (hle : Growth Stmt le)

include hle

theorem TxEnds.weaken {Q : List ω → α → σ → Prop} {p : Tx Stmt ε α} {ws : List ω} {db db' : σ}
    (h : TxEnds le Q p ws db) (hdb : le db db') : TxEnds le Q p ws db' := by
  cases p with
  | pure a => exact fun db'' hdb' => h db'' (hle.trans hdb hdb')
  | throw e => trivial
  | stmt st k => exact fun db'' hdb' => h db'' (hle.trans hdb hdb')

theorem InTime.weaken {Q : Bool → α → σ → Prop} {p : Prog Stmt ε α} {done : Bool} {db db' : σ}
    (h : InTime le lasts Q done p db) (hdb : le db db') : InTime le lasts Q done p db' := by
  cases p with
  | pure a => exact fun db'' hdb' => h db'' (hle.trans hdb hdb')
  | throw e => exact h
  | stmt st k => exact fun db'' hdb' => h db'' (hle.trans hdb hdb')
  | tx body k => exact ⟨h.1, h.2.weaken hle hdb⟩

theorem InTime.bind {Q : Bool → β → σ → Prop} {p : Prog Stmt ε α} {f : α → Prog Stmt ε β}
    {done : Bool} {db : σ}
    (h : InTime le lasts (fun done' a db' => InTime le lasts Q done' (f a) db') done p db) :
    InTime le lasts Q done (p >>= f) db := by
  induction p generalizing done db with
  | pure a => exact h db (hle.refl db)
  | throw e => exact h
  | stmt st k ih =>
      intro db' hdb
      obtain ⟨hok, hnext⟩ := h db' hdb
      exact ⟨hok, fun b ws he => ih b (hnext b ws he)⟩
  | tx body k ih => exact ⟨h.1, h.2.mono fun ws b db' hk => ih b hk⟩

theorem TxEnds.bind {Q : List ω → β → σ → Prop} {p : Tx Stmt ε α} {f : α → Tx Stmt ε β}
    {ws : List ω} {db : σ}
    (h : TxEnds le (fun ws' a db' => TxEnds le Q (f a) ws' db') p ws db) :
    TxEnds le Q (p >>= f) ws db := by
  induction p generalizing ws db with
  | pure a => exact h db (hle.refl db)
  | throw e => trivial
  | stmt st k ih => exact fun db' hdb b ws' he => ih b (h db' hdb b ws' he)

-- The answer is not read.
theorem InTime.void {p : Prog Stmt ε α} {db : σ}
    (h : InTime le lasts (fun _ _ _ => True) false p db) :
    InTime le lasts (fun _ _ _ => True) false p.void db :=
  InTime.bind hle (h.mono fun _ _ _ _ _ _ => trivial)

omit hle in
theorem inTime_query {Q : Bool → β → σ → Prop} {st : Stmt α} {answer : σ → α}
    {f : α → Prog Stmt ε β} {done : Bool} {db : σ}
    (hst : ∀ db, Backend.exec st db = .ok (answer db, []))
    (h : ∀ db', le db db' → InTime le lasts Q done (f (answer db')) db') :
    InTime le lasts Q done (Prog.call st >>= f) db := by
  intro db' hdb
  rw [hst]
  refine ⟨fun _ => rfl, fun b ws he => ?_⟩
  cases he
  rw [List.any_nil, Bool.or_false]
  exact h db' hdb

omit hle in
-- As long as nothing lasting is committed, a statement may fail.
theorem inTime_call {Q : Bool → β → σ → Prop} {st : Stmt α} {f : α → Prog Stmt ε β} {db : σ}
    (h : ∀ db', le db db' → ∀ b ws, Backend.exec st db' = .ok (b, ws) →
      InTime le lasts Q (ws.any (lasts db')) (f b) (view Stmt db' ws)) :
    InTime le lasts Q false (Prog.call st >>= f) db := by
  refine fun db' hdb => ⟨fun hdone => absurd hdone Bool.false_ne_true, fun b ws he => ?_⟩
  rw [Bool.false_or]
  exact h db' hdb b ws he

omit hle in
-- Afterwards it must not.
theorem inTime_must {Q : Bool → β → σ → Prop} {st : Stmt α} {f : α → Prog Stmt ε β} {done : Bool}
    {db : σ} (hok : ∀ db', le db db' → (Backend.exec st db').isOk)
    (h : ∀ db', le db db' → ∀ done' b ws, Backend.exec st db' = .ok (b, ws) →
      InTime le lasts Q done' (f b) (view Stmt db' ws)) :
    InTime le lasts Q done (Prog.call st >>= f) db := fun db' hdb =>
  ⟨fun _ => hok db' hdb, fun b ws he => h db' hdb _ b ws he⟩

omit hle in
theorem inTime_transaction {Q : Bool → β → σ → Prop} {body : Tx Stmt ε α} {f : α → Prog Stmt ε β}
    {db : σ} (h : TxEnds le (fun ws b db' =>
      InTime le lasts Q (ws.any (lasts db')) (f b) (view Stmt db' ws)) body [] db) :
    InTime le lasts Q false (Prog.transaction body >>= f) db := ⟨rfl, h⟩

omit hle in
theorem inTime_expect {Q : Bool → β → σ → Prop} {found : Option α} {e : ε} {f : α → Prog Stmt ε β}
    {db : σ} (h : ∀ a, found = some a → InTime le lasts Q false (f a) db) :
    InTime le lasts Q false (Prog.expect found e >>= f) db := by
  cases found with
  | none => rfl
  | some a => exact h a rfl

omit hle in
theorem inTime_require {Q : Bool → β → σ → Prop} {c : Prop} [Decidable c] {e : ε}
    {f : Unit → Prog Stmt ε β} {db : σ} (h : c → InTime le lasts Q false (f ()) db) :
    InTime le lasts Q false (Prog.require c e >>= f) db := by
  unfold Prog.require
  split
  · rename_i hc
    exact h hc
  · rfl

omit hle in
theorem txEnds_call {Q : List ω → β → σ → Prop} {st : Stmt α} {f : α → Tx Stmt ε β} {ws : List ω}
    {db : σ} (h : ∀ db', le db db' → ∀ b ws',
      Backend.exec st (view Stmt db' ws) = .ok (b, ws') → TxEnds le Q (f b) (ws ++ ws') db') :
    TxEnds le Q (Tx.call st >>= f) ws db := h

omit hle in
-- A transaction only adds to its writes.
theorem txEnds_of_append {Q : List ω → α → σ → Prop} {p : Tx Stmt ε α} {ws : List ω} {db : σ}
    (h : ∀ rest a db', Q (ws ++ rest) a db') : TxEnds le Q p ws db := by
  induction p generalizing ws db with
  | pure a => exact fun db' _ => List.append_nil ws ▸ h [] a db'
  | throw e => trivial
  | stmt st k ih =>
      refine fun db' _ b ws' _ => ih b fun rest a db'' => ?_
      rw [List.append_assoc]
      exact h (ws' ++ rest) a db''

end Rules

-- None of these commits has a lasting write.
def Spared (lasts : σ → ω → Bool) (db : σ) (log : List (ℕ × List ω)) : Prop :=
  ∀ entry ∈ written log, lasts db entry.2 = false

-- A write that does not last when it is committed does not afterwards.
def Settling (le : σ → σ → Prop) (lasts : σ → ω → Bool) : Prop :=
  ∀ db db', le db db' → ∀ wr, lasts db wr = false → lasts db' wr = false

theorem Spared.later (hlasts : Settling le lasts) {db db' : σ} {log : List (ℕ × List ω)}
    (h : Spared lasts db log) (hdb : le db db') : Spared lasts db' log :=
  fun entry hentry => hlasts db db' hdb entry.2 (h entry hentry)

theorem Spared.commit (hle : Growth Stmt le) (hlasts : Settling le lasts) {s : Store σ ω} {me : ℕ}
    {ws : List ω} (h : Spared lasts s.db (s.own me)) (hws : ws.any (lasts s.db) = false) :
    Spared lasts (view Stmt s.db ws) ((s.commit Stmt me ws).own me) := by
  have hview := hle.view s.db ws
  cases ws with
  | nil => exact h
  | cons w ws =>
      rw [Store.own_commit_self]
      intro entry hentry
      rw [written, List.flatMap_append, List.flatMap_singleton, List.mem_append] at hentry
      rcases hentry with hold | hnew
      · exact h.later hlasts hview entry hold
      · obtain ⟨wr, hwr, rfl⟩ := List.mem_map.mp hnew
        have hspared := List.any_eq_false.mp hws wr hwr
        exact hlasts _ _ hview wr (by simpa using hspared)

theorem Thread.eq_throw_of_failed {t : Thread Stmt ω ε} {e : ε} (h : t.failed = some e) :
    t = .run (.throw e) := by
  cases t with
  | run p =>
      cases p with
      | throw e' => cases h; rfl
      | _ => cases h
  | tx seen ws body k => cases h

-- A thread that was not killed, with what it has committed so far.
def Thread.InTime (le : σ → σ → Prop) (lasts : σ → ω → Bool) (done : Bool) (db : σ) :
    Thread Stmt ω ε → Prop
  | .run p => ReadCommitted.InTime le lasts (fun _ _ _ => True) done p db
  | .tx _ ws body k => done = false ∧ TxEnds le (fun ws b db' =>
      ReadCommitted.InTime le lasts (fun _ _ _ => True) (ws.any (lasts db')) (k b)
        (view Stmt db' ws)) body ws db

namespace System

-- In time, with what it has committed so far.
def Current (le : σ → σ → Prop) (lasts : σ → ω → Bool) (i : ℕ) (s : Store σ ω)
    (t : Thread Stmt ω ε) : Prop :=
  ∃ done, t.InTime le lasts done s.db ∧ (done = false → Spared lasts s.db (s.own i))

-- Thread `i` is in time, unless it has ended with an error.
structure InTimeAt (le : σ → σ → Prop) (lasts : σ → ω → Bool) (i : ℕ) (s : System Stmt σ ω ε) :
    Prop where
  thread : ∀ t, s.threads[i]? = some t → t.failed.isSome = true ∨ Current le lasts i s.store t
  unborn : s.threads.length ≤ i → s.store.own i = []

-- It has not ended with an error, or by itself.
def CurrentAt (le : σ → σ → Prop) (lasts : σ → ω → Bool) (i : ℕ) (s : System Stmt σ ω ε) : Prop :=
  ∃ t, s.threads[i]? = some t ∧ Current le lasts i s.store t

variable {s s' : System Stmt σ ω ε} {i : ℕ} (hle : Growth Stmt le) (hlasts : Settling le lasts)

include hle hlasts

theorem Current.weaken {st st' : Store σ ω} {t : Thread Stmt ω ε} (h : Current le lasts i st t)
    (hown : st'.own i = st.own i) (hdb : le st.db st'.db) : Current le lasts i st' t := by
  obtain ⟨done, hthread, hspared⟩ := h
  refine ⟨done, ?_, fun hdone => hown ▸ (hspared hdone).later hlasts hdb⟩
  cases t with
  | run p => exact InTime.weaken hle hthread hdb
  | tx seen ws body k => exact ⟨hthread.1, hthread.2.weaken hle hdb⟩

theorem InTimeAt.weaken (h : s.InTimeAt le lasts i) (hown : s'.store.own i = s.store.own i)
    (hdb : le s.store.db s'.store.db) (hthread : s'.threads[i]? = s.threads[i]?)
    (hlength : s'.threads.length = s.threads.length) : s'.InTimeAt le lasts i where
  thread t ht := by
    rw [hthread] at ht
    exact (h.thread t ht).imp_right fun hold => hold.weaken hle hlasts hown hdb
  unborn hi := by
    rw [hown]
    exact h.unborn (hlength ▸ hi)

omit hle hlasts in
theorem CurrentAt.inTimeAt (h : s.CurrentAt le lasts i) : s.InTimeAt le lasts i := by
  obtain ⟨t, ht, hthread⟩ := h
  refine ⟨fun t' ht' => ?_, fun hi => ?_⟩
  · cases ht.symm.trans ht'
    exact .inr hthread
  · rw [List.getElem?_eq_none hi] at ht
    cases ht

omit hle hlasts in
theorem CurrentAt.set {t₀ : Thread Stmt ω ε} (hi : s.threads[i]? = some t₀) {t : Thread Stmt ω ε}
    {st : Store σ ω} (ht : Current le lasts i st t) :
    CurrentAt le lasts i { s.set i t with store := st } :=
  ⟨t, List.getElem?_set_self (List.getElem?_eq_some_iff.mp hi).1, ht⟩

variable [DecidableEq ℓ]

-- The own step of a thread, by the kind of its next statement.
theorem InTimeAt.step (h : s.InTimeAt le lasts i) (hn : s.next i = some s') :
    s'.CurrentAt le lasts i := by
  have hrefl := hle.refl s.store.db
  have hcommit {t₀ : Thread Stmt ω ε} (hi : s.threads[i]? = some t₀) (p : Prog Stmt ε Unit)
      {ws : List ω} {done : Bool} (hspared : done = false → Spared lasts s.store.db (s.store.own i))
      (hp : InTime le lasts (fun _ _ _ => True) (done || ws.any (lasts s.store.db)) p
        (view Stmt s.store.db ws)) :
      CurrentAt le lasts i { s.set i (.run p) with store := s.store.commit Stmt i ws } := by
    have hdb : (s.store.commit Stmt i ws).db = view Stmt s.store.db ws := Store.commit_db _ _ _
    refine CurrentAt.set hi ⟨_, hdb.symm ▸ hp, fun hdone => ?_⟩
    obtain ⟨hbefore, hws⟩ := Bool.or_eq_false_iff.mp hdone
    rw [hdb]
    exact (hspared hbefore).commit hle hlasts hws
  unfold System.next at hn
  split at hn
  · cases hn
  · cases hn
  · cases hn
  · rename_i st k hi
    obtain ⟨done, hthread, hspared⟩ := (h.thread _ hi).resolve_left fun hfailed => by cases hfailed
    obtain ⟨hok, hnext⟩ := hthread s.store.db hrefl
    split at hn
    · rename_i e he
      cases hn
      have hdone : done = false := by
        by_contra htrue
        have hfails := hok (Bool.eq_true_of_not_eq_false htrue)
        rw [he] at hfails
        cases hfails
      exact CurrentAt.set hi ⟨done, hdone, hspared⟩
    · rename_i b ws he
      split at hn
      · cases hn
        exact hcommit hi _ hspared (hnext b ws he)
      · cases hn
  · rename_i body k hi
    cases hn
    exact CurrentAt.set hi ((h.thread _ hi).resolve_left fun hfailed => by cases hfailed)
  · rename_i seen ws b k hi
    cases hn
    obtain ⟨done, ⟨hdone, hends⟩, hspared⟩ :=
      (h.thread _ hi).resolve_left fun hfailed => by cases hfailed
    refine hcommit hi _ hspared ?_
    rw [hdone, Bool.false_or]
    exact hends s.store.db hrefl
  · rename_i hi
    cases hn
    obtain ⟨done, ⟨hdone, _⟩, hspared⟩ :=
      (h.thread _ hi).resolve_left fun hfailed => by cases hfailed
    exact CurrentAt.set hi ⟨done, hdone, hspared⟩
  · rename_i seen ws _ st kb k hi
    obtain ⟨done, ⟨hdone, hends⟩, hspared⟩ :=
      (h.thread _ hi).resolve_left fun hfailed => by cases hfailed
    split at hn
    · cases hn
      exact CurrentAt.set hi ⟨done, hdone, hspared⟩
    · rename_i b ws' he
      split at hn
      · cases hn
        exact CurrentAt.set hi ⟨done, ⟨hdone, hends s.store.db hrefl b ws' he⟩, hspared⟩
      · cases hn

theorem InTimeAt.next (h : s.InTimeAt le lasts i) {j : ℕ} (hn : s.next j = some s') :
    s'.InTimeAt le lasts i := by
  by_cases hij : j = i
  · exact (h.step hle hlasts (hij ▸ hn)).inTimeAt
  · have hlength := length_next hn
    have hthread : s'.threads[i]? = s.threads[i]? := by
      obtain ⟨_, t, _, _, hset⟩ := moves_next hn
      rw [hset, List.getElem?_set_ne hij]
    rcases store_next hn with hsame | ⟨ws, hcommit⟩
    · exact h.weaken hle hlasts (hsame ▸ rfl) (hsame ▸ hle.refl _) hthread hlength
    · refine h.weaken hle hlasts ?_ ?_ hthread hlength
      · rw [hcommit, Store.own_commit_ne s.store hij]
      · rw [hcommit, Store.commit_db]
        exact hle.view _ ws

-- Whatever the other requests are.
theorem Runs.inTimeAt {program : ℕ → Prog Stmt ε Unit} {g : Guard Stmt σ} {db : σ}
    (hp : ∀ db, InTime le lasts (fun _ _ _ => True) false (program i) db)
    (h : Runs program g (init db) s) : s.InTimeAt le lasts i := by
  induction h with
  | refl => exact ⟨fun t ht => by simp [init] at ht, fun _ => rfl⟩
  | @spawn s₁ _ ih =>
      refine ⟨fun t ht => ?_, fun hi => ih.unborn ?_⟩
      · simp only [System.spawn, List.getElem?_append] at ht
        split_ifs at ht with hlt
        · exact ih.thread t ht
        · obtain ⟨hzero, rfl⟩ : i - s₁.threads.length = 0 ∧
              Thread.run (program s₁.threads.length) = t := by
            simpa [List.getElem?_singleton] using ht
          have hi : s₁.threads.length = i := by omega
          refine Or.inr ⟨false, hi ▸ hp _, fun _ entry hentry => ?_⟩
          have hnone : (s₁.spawn (program s₁.threads.length)).store.own i = [] := ih.unborn hi.le
          rw [hnone] at hentry
          exact absurd hentry List.not_mem_nil
      · simp only [System.spawn, List.length_append, List.length_singleton] at hi
        omega
  | next _ _ hn ih => exact ih.next hle hlasts hn
  | @kill s₁ j e _ ih =>
      by_cases hij : j = i
      · refine ⟨fun t ht => .inl ?_, fun hi => ih.unborn (by simpa [System.kill, System.set] using hi)⟩
        simp only [System.kill, System.set, hij, List.getElem?_set_self'] at ht
        obtain ⟨_, _, rfl⟩ := Option.map_eq_some_iff.mp ht
        rfl
      · exact ih.weaken hle hlasts rfl (hle.refl _) (List.getElem?_set_ne hij) List.length_set
  | happen a _ ih => exact ih.weaken hle hlasts rfl (hle.happen _ a) rfl rfl

-- A request that its own step ends with an error has committed nothing that lasts.
theorem Runs.refused {program : ℕ → Prog Stmt ε Unit} {g : Guard Stmt σ} {db : σ} {e : ε}
    (hp : ∀ db, InTime le lasts (fun _ _ _ => True) false (program i) db)
    (h : Runs program g (init db) s) (hn : s.next i = some s')
    (he : s'.threads[i]?.bind Thread.failed = some e) :
    ∀ entry ∈ written (s'.store.own i), lasts s'.store.db entry.2 = false := by
  obtain ⟨t, ht, done, hthread, hspared⟩ := (h.inTimeAt hle hlasts hp).step hle hlasts hn
  have hfailed : t.failed = some e := by rwa [ht, Option.bind_some] at he
  obtain rfl := Thread.eq_throw_of_failed hfailed
  exact hspared hthread

end System

end ReadCommitted
