import SideQuest.Lib.Program
import Mathlib.Data.List.Basic

-- Concurrent requests over one database at READ COMMITTED. A statement is one
-- atomic step. It reads the committed data and its own transaction's writes, and a
-- written row stays locked until the transaction ends.

-- `σ` is the committed data, `ω` a write of one row, `ℓ` a row or a unique key that
-- a writer locks, `η` something that happens outside the requests.
class Backend (Stmt : Type → Type) (σ ω ℓ ε η : outParam Type) where
  -- The answer of a statement on the data it sees, with the writes that it makes.
  exec {β : Type} : Stmt β → σ → Except ε (β × List ω)
  apply : σ → ω → σ
  locks : ω → List ℓ
  happen : η → σ → σ

namespace ReadCommitted

-- The committed data, and the committed writes in commit order, each with the
-- index of the thread that made them.
structure Store (σ ω : Type) where
  db : σ
  wal : List (Nat × List ω)

-- A statement that a transaction has run, with its answer.
structure Seen (Stmt : Type → Type) : Type 1 where
  {β : Type}
  stmt : Stmt β
  answer : β

-- A request in progress: between its transactions, or inside one with the
-- statements run so far, latest first, and the uncommitted writes, oldest first.
inductive Thread (Stmt : Type → Type) (ω ε : Type) : Type 1 where
  | run (p : Prog Stmt ε Unit)
  | tx {β : Type} (seen : List (Seen Stmt)) (ws : List ω) (body : Tx Stmt ε β)
      (k : β → Prog Stmt ε Unit)

def Thread.answered : Thread Stmt ω ε → Bool
  | .run (.pure _) => true
  | _ => false

-- A condition on the next statement: what its transaction has seen, the statement
-- and the data it is about to run on.
def Guard (Stmt : Type → Type) (σ : Type) : Type 1 :=
  List (Seen Stmt) → {β : Type} → Stmt β → σ → Bool

def Guard.none {Stmt : Type → Type} {σ : Type} : Guard Stmt σ := fun _ _ _ _ => true

section

variable {Stmt : Type → Type} {σ ω ℓ ε η : Type} [Backend Stmt σ ω ℓ ε η]

-- Committed data overlaid with a transaction's own writes.
def view (Stmt : Type → Type) [Backend Stmt σ ω ℓ ε η] (db : σ) (ws : List ω) : σ :=
  ws.foldl (Backend.apply Stmt) db

def locksOf (Stmt : Type → Type) [Backend Stmt σ ω ℓ ε η] (ws : List ω) : List ℓ :=
  ws.flatMap (Backend.locks Stmt)

@[simp] theorem view_nil (db : σ) : view Stmt db [] = db := rfl

@[simp] theorem view_cons (db : σ) (w : ω) (ws : List ω) :
    view Stmt db (w :: ws) = view Stmt (Backend.apply Stmt db w) ws := rfl

theorem view_append (db : σ) (ws ws' : List ω) :
    view Stmt db (ws ++ ws') = view Stmt (view Stmt db ws) ws' := List.foldl_append

@[simp] theorem locksOf_nil : locksOf Stmt ([] : List ω) = [] := rfl

@[simp] theorem locksOf_cons (w : ω) (ws : List ω) :
    locksOf Stmt (w :: ws) = Backend.locks Stmt w ++ locksOf Stmt ws := rfl

theorem locksOf_append (ws ws' : List ω) :
    locksOf Stmt (ws ++ ws') = locksOf Stmt ws ++ locksOf Stmt ws' := List.flatMap_append

def Thread.held : Thread Stmt ω ε → List ℓ
  | .run _ => []
  | .tx _ ws _ _ => locksOf Stmt ws

-- A commit without writes leaves no trace.
def Store.commit (Stmt : Type → Type) [Backend Stmt σ ω ℓ ε η] (s : Store σ ω) (me : Nat) :
    List ω → Store σ ω
  | [] => s
  | w :: ws => ⟨view Stmt s.db (w :: ws), s.wal ++ [(me, w :: ws)]⟩

-- The commits of one thread.
def Store.own (s : Store σ ω) (me : Nat) : List (Nat × List ω) :=
  s.wal.filter fun entry => entry.1 = me

@[simp] theorem Store.commit_nil (s : Store σ ω) (me : Nat) : s.commit Stmt me [] = s := rfl

@[simp] theorem Store.commit_db (s : Store σ ω) (me : Nat) (ws : List ω) :
    (s.commit Stmt me ws).db = view Stmt s.db ws := by
  cases ws <;> rfl

@[simp] theorem Store.commit_wal_cons (s : Store σ ω) (me : Nat) (w : ω) (ws : List ω) :
    (s.commit Stmt me (w :: ws)).wal = s.wal ++ [(me, w :: ws)] := rfl

theorem Store.wal_prefix_commit (s : Store σ ω) (me : Nat) (ws : List ω) :
    s.wal <+: (s.commit Stmt me ws).wal := by
  cases ws with
  | nil => exact List.prefix_refl _
  | cons w ws => exact List.prefix_append _ _

theorem Store.own_commit_self (s : Store σ ω) (me : Nat) (w : ω) (ws : List ω) :
    (s.commit Stmt me (w :: ws)).own me = s.own me ++ [(me, w :: ws)] := by
  simp [own]

theorem Store.own_commit_ne (s : Store σ ω) {me other : Nat} (h : me ≠ other) (ws : List ω) :
    (s.commit Stmt me ws).own other = s.own other := by
  cases ws with
  | nil => rfl
  | cons w ws => simp [own, h]

end

structure System (Stmt : Type → Type) (σ ω ε : Type) : Type 1 where
  store : Store σ ω
  threads : List (Thread Stmt ω ε)

-- One scheduling decision. A `kill` ends a request at any point, rolling back the
-- transaction it is in: a timeout, a deadlock victim, a lost connection.
inductive Choice (Stmt : Type → Type) (ε η : Type) : Type 1 where
  | spawn (p : Prog Stmt ε Unit)
  | next (i : Nat)
  | kill (i : Nat) (e : ε)
  | happen (a : η)

namespace System

variable {Stmt : Type → Type} {σ ω ℓ ε η : Type} [Backend Stmt σ ω ℓ ε η] [DecidableEq ℓ]

def init (db : σ) : System Stmt σ ω ε := ⟨⟨db, []⟩, []⟩

def set (s : System Stmt σ ω ε) (i : Nat) (t : Thread Stmt ω ε) : System Stmt σ ω ε :=
  { s with threads := s.threads.set i t }

-- No other open transaction holds a lock that these writes need.
def free (s : System Stmt σ ω ε) (i : Nat) (ws : List ω) : Bool :=
  (s.threads.eraseIdx i).all fun t => (locksOf Stmt ws).all fun l => l ∉ t.held

-- The next statement of thread `i`. A statement whose locks are taken waits: it has
-- no step until the holder ends, and then runs on the data committed by then.
def next (s : System Stmt σ ω ε) (i : Nat) : Option (System Stmt σ ω ε) :=
  match s.threads[i]? with
  | none => none
  | some (.run (.pure _)) => none
  | some (.run (.throw _)) => none
  | some (.run (.stmt st k)) =>
      match Backend.exec st s.store.db with
      | .error e => some (s.set i (.run (.throw e)))
      | .ok (b, ws) =>
          if s.free i ws then
            some { s.set i (.run (k b)) with store := s.store.commit Stmt i ws }
          else none
  | some (.run (.tx body k)) => some (s.set i (.tx [] [] body k))
  | some (.tx _ ws (.pure b) k) =>
      some { s.set i (.run (k b)) with store := s.store.commit Stmt i ws }
  | some (.tx _ _ (.throw e) _) => some (s.set i (.run (.throw e)))
  | some (.tx seen ws (.stmt st kb) k) =>
      match Backend.exec st (view Stmt s.store.db ws) with
      | .error e => some (s.set i (.run (.throw e)))
      | .ok (b, ws') =>
          if s.free i ws' then some (s.set i (.tx (⟨st, b⟩ :: seen) (ws ++ ws') (kb b) k))
          else none

def kill (s : System Stmt σ ω ε) (i : Nat) (e : ε) : System Stmt σ ω ε :=
  s.set i (.run (.throw e))

def spawn (s : System Stmt σ ω ε) (p : Prog Stmt ε Unit) : System Stmt σ ω ε :=
  { s with threads := s.threads ++ [.run p] }

def happen (s : System Stmt σ ω ε) (a : η) : System Stmt σ ω ε :=
  { s with store := { s.store with db := Backend.happen Stmt a s.store.db } }

-- Whether the statement that thread `i` runs next satisfies the guard.
def meets (g : Guard Stmt σ) (s : System Stmt σ ω ε) (i : Nat) : Bool :=
  match s.threads[i]? with
  | some (.run (.stmt st _)) => g [] st s.store.db
  | some (.tx seen ws (.stmt st _) _) => g seen st (view Stmt s.store.db ws)
  | _ => true

-- The runs in which every request started is one of `requests` and every statement
-- satisfies the guard.
inductive Reaches (requests : Prog Stmt ε Unit → Prop) (g : Guard Stmt σ)
    (s : System Stmt σ ω ε) : System Stmt σ ω ε → Prop
  | refl : Reaches requests g s s
  | spawn {s' : System Stmt σ ω ε} {p : Prog Stmt ε Unit} :
      Reaches requests g s s' → requests p → Reaches requests g s (s'.spawn p)
  | next {s' s'' : System Stmt σ ω ε} {i : Nat} :
      Reaches requests g s s' → s'.meets g i = true → s'.next i = some s'' →
        Reaches requests g s s''
  | kill {s' : System Stmt σ ω ε} (i : Nat) (e : ε) :
      Reaches requests g s s' → Reaches requests g s (s'.kill i e)
  | happen {s' : System Stmt σ ω ε} (a : η) :
      Reaches requests g s s' → Reaches requests g s (s'.happen a)

-- A schedule played out: the state after it, if every decision can be carried out.
def play (g : Guard Stmt σ) (s : System Stmt σ ω ε) :
    List (Choice Stmt ε η) → Option (System Stmt σ ω ε)
  | [] => some s
  | .spawn p :: rest => play g (s.spawn p) rest
  | .next i :: rest =>
      if s.meets g i then
        match s.next i with
        | some s' => play g s' rest
        | none => none
      else none
  | .kill i e :: rest => play g (s.kill i e) rest
  | .happen a :: rest => play g (s.happen a) rest

theorem reaches_of_play {requests : Prog Stmt ε Unit → Prop} {g : Guard Stmt σ}
    {s s' : System Stmt σ ω ε} {schedule : List (Choice Stmt ε η)}
    (hreq : ∀ p, .spawn p ∈ schedule → requests p) (h : play g s schedule = some s') :
    Reaches requests g s s' := by
  suffices key : ∀ s₁, Reaches requests g s s₁ → play g s₁ schedule = some s' →
      Reaches requests g s s' from key s .refl h
  clear h
  induction schedule with
  | nil =>
      intro s₁ h₁ h
      cases h
      exact h₁
  | cons choice rest ih =>
      intro s₁ h₁ h
      have hrest : ∀ p, .spawn p ∈ rest → requests p := fun p hp =>
        hreq p (List.mem_cons_of_mem _ hp)
      cases choice with
      | spawn p => exact ih hrest _ (h₁.spawn (hreq p List.mem_cons_self)) h
      | next i =>
          simp only [play] at h
          split at h
          · rename_i hg
            split at h
            · rename_i s₂ hn
              exact ih hrest _ (h₁.next hg hn) h
            · cases h
          · cases h
      | kill i e => exact ih hrest _ (h₁.kill i e) h
      | happen a => exact ih hrest _ (h₁.happen a) h

-- The schedule that starts some requests and then gives their threads steps in an order.
def interleave (ps : List (Prog Stmt ε Unit)) (order : List Nat) : List (Choice Stmt ε η) :=
  ps.map .spawn ++ order.map .next

theorem spawn_mem_interleave {ps : List (Prog Stmt ε Unit)} {order : List Nat}
    {p : Prog Stmt ε Unit} : (.spawn p : Choice Stmt ε η) ∈ interleave ps order ↔ p ∈ ps := by
  simp [interleave]

theorem exists_reaches_of_interleave {β : Type} (requests : Prog Stmt ε Unit → Prop)
    (g : Guard Stmt σ) (s : System Stmt σ ω ε) (ps : List (Prog Stmt ε Unit)) (order : List Nat)
    (observe : System Stmt σ ω ε → β) (b : β) (hps : ∀ p ∈ ps, requests p)
    (h : (play g s (interleave ps order)).map observe = some b) :
    ∃ s', Reaches requests g s s' ∧ observe s' = b := by
  obtain ⟨s', hs', hb⟩ := Option.map_eq_some_iff.mp h
  exact ⟨s', reaches_of_play (fun p hp => hps p (spawn_mem_interleave.mp hp)) hs', hb⟩

-- The runs in which the requests are started in a given order.
inductive Runs (program : Nat → Prog Stmt ε Unit) (g : Guard Stmt σ)
    (s : System Stmt σ ω ε) : System Stmt σ ω ε → Prop
  | refl : Runs program g s s
  | spawn {s' : System Stmt σ ω ε} :
      Runs program g s s' → Runs program g s (s'.spawn (program s'.threads.length))
  | next {s' s'' : System Stmt σ ω ε} {i : Nat} :
      Runs program g s s' → s'.meets g i = true → s'.next i = some s'' → Runs program g s s''
  | kill {s' : System Stmt σ ω ε} (i : Nat) (e : ε) :
      Runs program g s s' → Runs program g s (s'.kill i e)
  | happen {s' : System Stmt σ ω ε} (a : η) :
      Runs program g s s' → Runs program g s (s'.happen a)

theorem length_next {s s' : System Stmt σ ω ε} {i : Nat} (h : s.next i = some s') :
    s'.threads.length = s.threads.length := by
  unfold next at h
  repeat' split at h
  all_goals cases h
  all_goals exact List.length_set

-- A step commits under the name of its thread, or not at all.
theorem store_next {s s' : System Stmt σ ω ε} {i : Nat} (h : s.next i = some s') :
    s'.store = s.store ∨ ∃ ws, s'.store = s.store.commit Stmt i ws := by
  unfold next at h
  repeat' split at h
  all_goals cases h
  all_goals first
    | exact Or.inl rfl
    | exact Or.inr ⟨_, rfl⟩

theorem Runs.wal_prefix {program : Nat → Prog Stmt ε Unit} {g : Guard Stmt σ}
    {s s' : System Stmt σ ω ε} (h : Runs program g s s') : s.store.wal <+: s'.store.wal := by
  induction h with
  | refl => exact List.prefix_refl _
  | spawn _ ih => exact ih
  | next _ _ hn ih =>
      rcases store_next hn with hsame | ⟨ws, hcommit⟩
      · rwa [hsame]
      · rw [hcommit]
        exact ih.trans (Store.wal_prefix_commit _ _ ws)
  | kill i e _ ih => exact ih
  | happen a _ ih => exact ih

theorem Runs.length_le {program : Nat → Prog Stmt ε Unit} {g : Guard Stmt σ}
    {s s' : System Stmt σ ω ε} (h : Runs program g s s') :
    s.threads.length ≤ s'.threads.length := by
  induction h with
  | refl => exact Nat.le_refl _
  | spawn _ ih => exact Nat.le_trans ih (by simp [System.spawn])
  | next _ _ hn ih => exact Nat.le_trans ih (Nat.le_of_eq (length_next hn).symm)
  | kill i e _ ih => exact Nat.le_trans ih (Nat.le_of_eq (by simp [System.kill, System.set]))
  | happen a _ ih => exact ih

theorem Runs.trans {program : Nat → Prog Stmt ε Unit} {g : Guard Stmt σ}
    {s s' s'' : System Stmt σ ω ε} (h : Runs program g s s') (h' : Runs program g s' s'') :
    Runs program g s s'' := by
  induction h' with
  | refl => exact h
  | spawn _ ih => exact ih.spawn
  | next _ hg hn ih => exact ih.next hg hn
  | kill i e _ ih => exact ih.kill i e
  | happen a _ ih => exact ih.happen a

-- The requests that a schedule starts, in order.
def started : List (Choice Stmt ε η) → List (Prog Stmt ε Unit)
  | [] => []
  | .spawn p :: rest => p :: started rest
  | _ :: rest => started rest

theorem length_play {g : Guard Stmt σ} {s s' : System Stmt σ ω ε} {schedule : List (Choice Stmt ε η)}
    (h : play g s schedule = some s') :
    s'.threads.length = s.threads.length + (started schedule).length := by
  induction schedule generalizing s with
  | nil =>
      cases h
      rfl
  | cons choice rest ih =>
      cases choice with
      | spawn p =>
          rw [ih h, System.spawn, List.length_append, List.length_singleton, started,
            List.length_cons, Nat.add_assoc, Nat.add_comm 1]
      | next i =>
          simp only [play] at h
          split at h
          · split at h
            · rename_i s₁ hn
              rw [ih h, length_next hn]
              rfl
            · cases h
          · cases h
      | kill i e =>
          rw [ih h, System.kill, System.set, List.length_set]
          rfl
      | happen a =>
          have hlength := ih (h : play g (s.happen a) rest = some s')
          exact hlength

-- A schedule that starts the next programs in turn.
theorem runs_of_play {program : Nat → Prog Stmt ε Unit} {g : Guard Stmt σ}
    {s s' : System Stmt σ ω ε} {schedule : List (Choice Stmt ε η)} {count : Nat}
    (hstarted : started schedule = (List.range' s.threads.length count).map program)
    (h : play g s schedule = some s') : Runs program g s s' := by
  induction schedule generalizing s count with
  | nil =>
      cases h
      exact .refl
  | cons choice rest ih =>
      cases choice with
      | spawn p =>
          cases count with
          | zero => cases hstarted
          | succ count =>
              rw [List.range'_succ, List.map_cons, started] at hstarted
              obtain ⟨rfl, hrest⟩ := List.cons.inj hstarted
              have hnext : (s.spawn (program s.threads.length)).threads.length =
                  s.threads.length + 1 := List.length_append
              exact (Runs.refl.spawn).trans (ih (hnext ▸ hrest) h)
      | next i =>
          simp only [play] at h
          split at h
          · rename_i hg
            split at h
            · rename_i s₁ hn
              exact (Runs.refl.next hg hn).trans (ih (length_next hn ▸ hstarted) h)
            · cases h
          · cases h
      | kill i e =>
          have hlength : (s.kill i e).threads.length = s.threads.length := List.length_set
          exact (Runs.refl.kill i e).trans (ih (hlength ▸ hstarted) h)
      | happen a =>
          have hrest : Runs program g (s.happen a) s' := ih hstarted h
          exact (Runs.refl.happen a).trans hrest

theorem exists_runs_of_play {β : Type} (program : Nat → Prog Stmt ε Unit) (g : Guard Stmt σ)
    (s : System Stmt σ ω ε) (schedule : List (Choice Stmt ε η)) (observe : System Stmt σ ω ε → β)
    (b : β) (count : Nat)
    (hstarted : started schedule = (List.range' s.threads.length count).map program)
    (h : (play g s schedule).map observe = some b) :
    ∃ s', Runs program g s s' ∧ observe s' = b := by
  obtain ⟨s', hs', hb⟩ := Option.map_eq_some_iff.mp h
  exact ⟨s', runs_of_play hstarted hs', hb⟩

theorem exists_runs_of_play_play {β : Type} (program : Nat → Prog Stmt ε Unit) (g : Guard Stmt σ)
    (s : System Stmt σ ω ε) (before after : List (Choice Stmt ε η))
    (observe : System Stmt σ ω ε → System Stmt σ ω ε → β) (b : β) (count count' : Nat)
    (hbefore : started before = (List.range' s.threads.length count).map program)
    (hafter : started after = (List.range' (s.threads.length + count) count').map program)
    (h : (play g s before).bind (fun s₁ => (play g s₁ after).map (observe s₁)) = some b) :
    ∃ s₁ s₂, Runs program g s s₁ ∧ Runs program g s₁ s₂ ∧ observe s₁ s₂ = b := by
  obtain ⟨s₁, hs₁, h⟩ := Option.bind_eq_some_iff.mp h
  obtain ⟨s₂, hs₂, hb⟩ := Option.map_eq_some_iff.mp h
  have hlength : s₁.threads.length = s.threads.length + count := by
    rw [length_play hs₁, hbefore, List.length_map, List.length_range']
  exact ⟨s₁, s₂, runs_of_play hbefore hs₁, runs_of_play (hlength ▸ hafter) hs₂, hb⟩

-- A run observed on the way and at its end.
theorem exists_reaches_of_play_play {β : Type} (requests : Prog Stmt ε Unit → Prop)
    (g : Guard Stmt σ) (s : System Stmt σ ω ε) (before after : List (Choice Stmt ε η))
    (observe : System Stmt σ ω ε → System Stmt σ ω ε → β) (b : β)
    (hps : ∀ p, .spawn p ∈ before ++ after → requests p)
    (h : (play g s before).bind (fun s₁ => (play g s₁ after).map (observe s₁)) = some b) :
    ∃ s₁ s₂, Reaches requests g s s₁ ∧ Reaches requests g s₁ s₂ ∧ observe s₁ s₂ = b := by
  obtain ⟨s₁, hs₁, h⟩ := Option.bind_eq_some_iff.mp h
  obtain ⟨s₂, hs₂, hb⟩ := Option.map_eq_some_iff.mp h
  have hbefore := reaches_of_play (fun p hp => hps p (List.mem_append_left _ hp)) hs₁
  have hafter := reaches_of_play (fun p hp => hps p (List.mem_append_right _ hp)) hs₂
  exact ⟨s₁, s₂, hbefore, hafter, hb⟩

end System

end ReadCommitted
