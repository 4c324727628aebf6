import SideQuest.Lib.Interleaving
import Mathlib.Logic.Hydra
import Mathlib.Tactic.Abel

-- Requests that run to their end: no statement of theirs fails, they wait for each other
-- in no circle, and no run goes on forever.

namespace ReadCommitted

variable {Stmt : Type → Type} {σ ω ℓ ε η : Type} [Backend Stmt σ ω ℓ ε η]

-- What a thread is after a step, whatever the data.
inductive Thread.Moves : Thread Stmt ω ε → Thread Stmt ω ε → Prop
  | answer {β : Type} (st : Stmt β) (k : β → Prog Stmt ε Unit) (b : β) :
      Moves (.run (k b)) (.run (.stmt st k))
  | fail {β : Type} (st : Stmt β) (k : β → Prog Stmt ε Unit) (e : ε) :
      Moves (.run (.throw e)) (.run (.stmt st k))
  | start {β : Type} (body : Tx Stmt ε β) (k : β → Prog Stmt ε Unit) :
      Moves (.tx [] [] body k) (.run (.tx body k))
  | statement {β γ : Type} (seen seen' : List (Seen Stmt)) (ws ws' : List ω) (st : Stmt γ)
      (kb : γ → Tx Stmt ε β) (b : γ) (k : β → Prog Stmt ε Unit) :
      Moves (.tx seen' ws' (kb b) k) (.tx seen ws (.stmt st kb) k)
  | commit {β : Type} (seen : List (Seen Stmt)) (ws : List ω) (b : β) (k : β → Prog Stmt ε Unit) :
      Moves (.run (k b)) (.tx seen ws (.pure b) k)
  | abort {β : Type} (seen : List (Seen Stmt)) (ws : List ω) (body : Tx Stmt ε β)
      (k : β → Prog Stmt ε Unit) (e : ε) : Moves (.run (.throw e)) (.tx seen ws body k)

theorem Thread.acc_throw (e : ε) : Acc Thread.Moves (.run (.throw e) : Thread Stmt ω ε) :=
  ⟨_, fun _ h => by cases h⟩

theorem Thread.acc_tx {β : Type} {k : β → Prog Stmt ε Unit}
    (hk : ∀ b, Acc Thread.Moves (.run (k b) : Thread Stmt ω ε)) (body : Tx Stmt ε β)
    (seen : List (Seen Stmt)) (ws : List ω) : Acc Thread.Moves (.tx seen ws body k) := by
  induction body generalizing seen ws with
  | pure b =>
      refine ⟨_, fun t h => ?_⟩
      cases h with
      | commit => exact hk b
      | abort => exact acc_throw _
  | throw e =>
      refine ⟨_, fun t h => ?_⟩
      cases h with
      | abort => exact acc_throw _
  | stmt st kb ih =>
      refine ⟨_, fun t h => ?_⟩
      cases h with
      | statement _ seen' _ ws' _ _ b => exact ih b seen' ws'
      | abort => exact acc_throw _

theorem Thread.acc_run (p : Prog Stmt ε Unit) : Acc Thread.Moves (.run p : Thread Stmt ω ε) := by
  induction p with
  | pure a => exact ⟨_, fun t h => by cases h⟩
  | throw e => exact acc_throw e
  | stmt st k ih =>
      refine ⟨_, fun t h => ?_⟩
      cases h with
      | answer _ _ b => exact ih b
      | fail => exact acc_throw _
  | tx body k ih =>
      refine ⟨_, fun t h => ?_⟩
      cases h with
      | start => exact acc_tx ih body [] []

theorem Thread.wellFounded_moves :
    WellFounded (Thread.Moves : Thread Stmt ω ε → Thread Stmt ω ε → Prop) := by
  refine ⟨fun t => ?_⟩
  cases t with
  | run p => exact acc_run p
  | tx seen ws body k => exact acc_tx (fun b => acc_run (k b)) body seen ws

theorem coe_set_add {α : Type*} {l : List α} {i : Nat} {a : α} (h : l[i]? = some a) (b : α) :
    (l.set i b : Multiset α) + {a} = (l : Multiset α) + {b} := by
  induction l generalizing i with
  | nil => simp at h
  | cons c l ih =>
      cases i with
      | zero =>
          obtain rfl : c = a := by simpa using h
          simp only [List.set_cons_zero, ← Multiset.cons_coe, ← Multiset.singleton_add]
          abel
      | succ i =>
          have hrest := ih (i := i) (by simpa using h)
          simp only [List.set_cons_succ, ← Multiset.cons_coe, Multiset.cons_add, hrest]

namespace System

section

variable [DecidableEq ℓ] {s s' : System Stmt σ ω ε}

theorem moves_next {i : Nat} (h : s.next i = some s') : ∃ t t', s.threads[i]? = some t ∧
    Thread.Moves t' t ∧ s'.threads = s.threads.set i t' := by
  unfold System.next at h
  split at h
  · cases h
  · cases h
  · cases h
  · rename_i st k hi
    split at h
    · cases h
      exact ⟨_, _, hi, .fail st k _, rfl⟩
    · split at h
      · cases h
        exact ⟨_, _, hi, .answer st k _, rfl⟩
      · cases h
  · rename_i body k hi
    cases h
    exact ⟨_, _, hi, .start body k, rfl⟩
  · rename_i seen ws b k hi
    cases h
    exact ⟨_, _, hi, .commit seen ws b k, rfl⟩
  · rename_i seen ws e k hi
    cases h
    exact ⟨_, _, hi, .abort seen ws _ k e, rfl⟩
  · rename_i seen ws _ st kb k hi
    split at h
    · cases h
      exact ⟨_, _, hi, .abort seen ws _ k _, rfl⟩
    · split at h
      · cases h
        exact ⟨_, _, hi, .statement seen _ ws _ st kb _ k, rfl⟩
      · cases h

-- Every run of the threads that are there comes to an end.
theorem wellFounded_next :
    WellFounded fun s' s : System Stmt σ ω ε => ∃ i, s.next i = some s' := by
  have hthreads : WellFounded fun s' s : System Stmt σ ω ε =>
      Relation.CutExpand Thread.Moves (s'.threads : Multiset (Thread Stmt ω ε)) s.threads :=
    InvImage.wf (fun s : System Stmt σ ω ε => (s.threads : Multiset (Thread Stmt ω ε)))
      Thread.wellFounded_moves.cutExpand
  refine Subrelation.wf (fun {s' s} h => ?_) hthreads
  obtain ⟨i, hnext⟩ := h
  obtain ⟨t, t', hi, hmoves, hset⟩ := moves_next hnext
  refine ⟨{t'}, t, fun t₁ ht₁ => Multiset.mem_singleton.mp ht₁ ▸ hmoves, ?_⟩
  rw [hset]
  exact coe_set_add hi t'

end

end System

-- Statements that go through on all data that the data may have become, and take their
-- locks by rank.
section Through

variable (g : Guard Stmt σ) (le : σ → σ → Prop) (rank : ℓ → Nat)

-- A transaction's body, for a postcondition of its answer and of the data by then. As
-- far as the guard is met no statement fails, and a new lock outranks the held ones.
def throughTx {α : Type} (Q : α → σ → Prop) :
    Tx Stmt ε α → List (Seen Stmt) → List ω → σ → Prop
  | .pure a, _, _, db => ∀ db', le db db' → Q a db'
  | .throw _, _, _, _ => False
  | .stmt st k, seen, ws, db => ∀ db', le db db' →
      (g seen st (view Stmt db' ws) = true → (Backend.exec st (view Stmt db' ws)).isOk) ∧
        ∀ b ws', Backend.exec st (view Stmt db' ws) = .ok (b, ws') →
          (∀ l ∈ locksOf Stmt ws', l ∈ locksOf Stmt ws ∨ ∀ l' ∈ locksOf Stmt ws, rank l' < rank l) ∧
            throughTx Q (k b) (⟨st, b⟩ :: seen) (ws ++ ws') db'

def through {α : Type} (Q : α → σ → Prop) : Prog Stmt ε α → σ → Prop
  | .pure a, db => ∀ db', le db db' → Q a db'
  | .throw _, _ => False
  | .stmt st k, db => ∀ db', le db db' →
      (g [] st db' = true → (Backend.exec st db').isOk) ∧
        ∀ b ws, Backend.exec st db' = .ok (b, ws) → through Q (k b) db'
  | .tx body k, db => throughTx g le rank (fun b db' => through Q (k b) db') body [] [] db

end Through

-- `le db db'`: the data may have become `db'`. Whatever is written or happens, it may.
structure Growth (Stmt : Type → Type) [Backend Stmt σ ω ℓ ε η] (le : σ → σ → Prop) : Prop where
  refl : ∀ db, le db db
  trans : ∀ {db db' db''}, le db db' → le db' db'' → le db db''
  apply : ∀ db w, le db (Backend.apply Stmt db w)
  happen : ∀ db a, le db (Backend.happen Stmt a db)

section Rules

variable {g : Guard Stmt σ} {le : σ → σ → Prop} {rank : ℓ → Nat} {α β : Type}

theorem throughTx_mono {Q Q' : α → σ → Prop} (hQ : ∀ a db, Q a db → Q' a db) {p : Tx Stmt ε α}
    {seen : List (Seen Stmt)} {ws : List ω} {db : σ} (h : throughTx g le rank Q p seen ws db) :
    throughTx g le rank Q' p seen ws db := by
  induction p generalizing seen ws db with
  | pure a => exact fun db' hdb => hQ a db' (h db' hdb)
  | throw e => exact h
  | stmt st k ih =>
      intro db' hdb
      obtain ⟨hok, hnext⟩ := h db' hdb
      refine ⟨hok, fun b ws' he => ?_⟩
      obtain ⟨hlocks, hrest⟩ := hnext b ws' he
      exact ⟨hlocks, ih b hrest⟩

-- A statement that only asks.
theorem through_query {Q : β → σ → Prop} {st : Stmt α} {answer : σ → α} {f : α → Prog Stmt ε β}
    {db : σ} (hst : ∀ db, Backend.exec st db = .ok (answer db, []))
    (h : ∀ db', le db db' → through g le rank Q (f (answer db')) db') :
    through g le rank Q (Prog.call st >>= f) db := by
  intro db' hdb
  rw [hst]
  refine ⟨fun _ => rfl, fun b ws he => ?_⟩
  cases he
  exact h db' hdb

variable (hle : Growth Stmt le)

include hle

theorem Growth.view (db : σ) (ws : List ω) : le db (view Stmt db ws) := by
  induction ws generalizing db with
  | nil => exact hle.refl db
  | cons w ws ih => exact hle.trans (hle.apply db w) (ih _)

theorem throughTx_weaken {Q : α → σ → Prop} {p : Tx Stmt ε α} {seen : List (Seen Stmt)}
    {ws : List ω} {db db' : σ} (h : throughTx g le rank Q p seen ws db) (hdb : le db db') :
    throughTx g le rank Q p seen ws db' := by
  cases p with
  | pure a => exact fun db'' hdb' => h db'' (hle.trans hdb hdb')
  | throw e => exact h
  | stmt st k => exact fun db'' hdb' => h db'' (hle.trans hdb hdb')

theorem through_weaken {Q : α → σ → Prop} {p : Prog Stmt ε α} {db db' : σ}
    (h : through g le rank Q p db) (hdb : le db db') : through g le rank Q p db' := by
  cases p with
  | pure a => exact fun db'' hdb' => h db'' (hle.trans hdb hdb')
  | throw e => exact h
  | stmt st k => exact fun db'' hdb' => h db'' (hle.trans hdb hdb')
  | tx body k => exact throughTx_weaken hle h hdb

theorem through_bind {Q : β → σ → Prop} {p : Prog Stmt ε α} {f : α → Prog Stmt ε β} {db : σ}
    (h : through g le rank (fun a db' => through g le rank Q (f a) db') p db) :
    through g le rank Q (p >>= f) db := by
  induction p generalizing db with
  | pure a => exact h db (hle.refl db)
  | throw e => exact h.elim
  | stmt st k ih =>
      intro db' hdb
      obtain ⟨hok, hnext⟩ := h db' hdb
      exact ⟨hok, fun b ws he => ih b (hnext b ws he)⟩
  | tx body k ih => exact throughTx_mono (fun b db' hrest => ih b hrest) h

theorem through_queries {Q : β → σ → Prop} {p : Prog Stmt ε α} (hp : Rules.Queries p)
    {f : α → Prog Stmt ε β} {db : σ}
    (h : ∀ a db', le db db' → through g le rank Q (f a) db') :
    through g le rank Q (p >>= f) db := by
  induction p generalizing db with
  | pure a => exact h a db (hle.refl db)
  | throw e => exact hp.elim
  | stmt st k ih =>
      intro db' hdb
      obtain ⟨b, hb⟩ := hp.1 db'
      rw [hb]
      refine ⟨fun _ => rfl, fun b' ws he => ?_⟩
      cases he
      exact ih b (hp.2 b) fun a db'' hdb' => h a db'' (hle.trans hdb hdb')
  | tx body k ih => exact hp.elim

end Rules

-- What a thread still has to do goes through.
def Thread.Through (g : Guard Stmt σ) (le : σ → σ → Prop) (rank : ℓ → Nat) (db : σ) :
    Thread Stmt ω ε → Prop
  | .run p => through g le rank (fun _ _ => True) p db
  | .tx seen ws body k => throughTx g le rank
      (fun b db' => through g le rank (fun _ _ => True) (k b) db') body seen ws db

-- The error that has ended a request.
def Thread.failed : Thread Stmt ω ε → Option ε
  | .run (.throw e) => some e
  | _ => none

namespace System

variable [DecidableEq ℓ] {g : Guard Stmt σ} {le : σ → σ → Prop} {rank : ℓ → Nat}
  {s s' : System Stmt σ ω ε}

-- The runs in which no request is killed.
def ReachesUnkilled (requests : Prog Stmt ε Unit → Prop) (g : Guard Stmt σ)
    (s s' : System Stmt σ ω ε) : Prop :=
  ∃ schedule : List (Choice Stmt ε η), (∀ p, .spawn p ∈ schedule → requests p) ∧
    (∀ i e, .kill i e ∉ schedule) ∧ play g s schedule = some s'

def AllThrough (g : Guard Stmt σ) (le : σ → σ → Prop) (rank : ℓ → Nat)
    (s : System Stmt σ ω ε) : Prop :=
  ∀ (i : Nat) (t : Thread Stmt ω ε), s.threads[i]? = some t → t.Through g le rank s.store.db

section Steps

variable (hle : Growth Stmt le)

include hle

omit [DecidableEq ℓ] in
theorem AllThrough.replace (h : s.AllThrough g le rank) {i : Nat} {t : Thread Stmt ω ε}
    {st : Store σ ω} (ht : t.Through g le rank st.db) (hdb : le s.store.db st.db) :
    AllThrough g le rank { s.set i t with store := st } := by
  intro j t' hj
  rw [System.set, List.getElem?_set] at hj
  split at hj
  · split at hj
    · cases hj
      exact ht
    · cases hj
  · have hold := h j t' hj
    cases t' with
    | run p => exact through_weaken hle hold hdb
    | tx seen ws body k => exact throughTx_weaken hle hold hdb

theorem AllThrough.next (h : s.AllThrough g le rank) {i : Nat} (hg : s.meets g i = true)
    (hn : s.next i = some s') : s'.AllThrough g le rank ∧ le s.store.db s'.store.db := by
  have hrefl := hle.refl s.store.db
  unfold System.next at hn
  unfold System.meets at hg
  split at hn
  · cases hn
  · cases hn
  · cases hn
  · rename_i st k hi
    rw [hi] at hg
    obtain ⟨hok, hnext⟩ := h i _ hi s.store.db hrefl
    split at hn
    · rename_i e he
      have hfails := hok hg
      rw [he] at hfails
      cases hfails
    · rename_i b ws he
      split at hn
      · cases hn
        have hdb : le s.store.db (s.store.commit Stmt i ws).db := by
          rw [Store.commit_db]
          exact hle.view _ _
        exact ⟨h.replace hle (through_weaken hle (hnext b ws he) hdb) hdb, hdb⟩
      · cases hn
  · rename_i body k hi
    cases hn
    have hbody : (Thread.run (.tx body k)).Through g le rank s.store.db := h i _ hi
    exact ⟨h.replace hle (t := .tx [] [] body k) hbody hrefl, hrefl⟩
  · rename_i seen ws b k hi
    cases hn
    have hdb : le s.store.db (s.store.commit Stmt i ws).db := by
      rw [Store.commit_db]
      exact hle.view _ _
    exact ⟨h.replace hle (t := .run (k b)) (h i _ hi _ hdb) hdb, hdb⟩
  · rename_i hi
    exact (h i _ hi).elim
  · rename_i seen ws _ st kb k hi
    rw [hi] at hg
    obtain ⟨hok, hnext⟩ := h i _ hi s.store.db hrefl
    split at hn
    · rename_i e he
      have hfails := hok hg
      rw [he] at hfails
      cases hfails
    · rename_i b ws' he
      split at hn
      · cases hn
        exact ⟨h.replace hle (t := .tx _ _ _ k) (hnext b ws' he).2 hrefl, hrefl⟩
      · cases hn

theorem AllThrough.play {schedule : List (Choice Stmt ε η)} {db : σ}
    {requests : Prog Stmt ε Unit → Prop}
    (hrequests : ∀ p, requests p → through g le rank (fun _ _ => True) p db)
    (hspawn : ∀ p, .spawn p ∈ schedule → requests p) (hkill : ∀ i e, .kill i e ∉ schedule)
    (h : s.AllThrough g le rank) (hdb : le db s.store.db)
    (hplay : System.play g s schedule = some s') : s'.AllThrough g le rank := by
  induction schedule generalizing s with
  | nil =>
      cases hplay
      exact h
  | cons choice rest ih =>
      have hspawn' : ∀ p, .spawn p ∈ rest → requests p := fun p hp =>
        hspawn p (List.mem_cons_of_mem _ hp)
      have hkill' : ∀ i e, .kill i e ∉ rest := fun i e he =>
        hkill i e (List.mem_cons_of_mem _ he)
      cases choice with
      | spawn p =>
          refine ih hspawn' hkill' (s := s.spawn p) (fun j t hj => ?_) hdb hplay
          have hp := through_weaken hle (hrequests p (hspawn p List.mem_cons_self)) hdb
          rcases List.mem_append.mp (List.mem_of_getElem? hj) with hold | hnew
          · obtain ⟨i, hi⟩ := List.mem_iff_getElem?.mp hold
            exact h i t hi
          · rw [List.mem_singleton.mp hnew]
            exact hp
      | next i =>
          simp only [System.play] at hplay
          split at hplay
          · rename_i hg
            split at hplay
            · rename_i s₁ hn
              obtain ⟨hthrough, hgrown⟩ := h.next hle hg hn
              exact ih hspawn' hkill' hthrough (hle.trans hdb hgrown) hplay
            · cases hplay
          · cases hplay
      | kill i e => exact absurd List.mem_cons_self (hkill i e)
      | happen a =>
          have hgrown : le s.store.db (s.happen a).store.db := hle.happen _ a
          refine ih hspawn' hkill' (fun j t hj => ?_) (hle.trans hdb hgrown) hplay
          have hold := h j t hj
          cases t with
          | run p => exact through_weaken hle hold hgrown
          | tx seen ws body k => exact throughTx_weaken hle hold hgrown

end Steps

-- A thread that waits for a lock which it does not hold, waits for one that outranks all
-- of those it holds.
theorem AllThrough.waiting (hle : Growth Stmt le) (h : s.AllThrough g le rank) {i : Nat}
    {t : Thread Stmt ω ε} (hi : s.threads[i]? = some t) (hopen : t.answered = false)
    (hn : s.next i = none) : ∃ (j : Nat) (tj : Thread Stmt ω ε) (l : ℓ), i ≠ j ∧
      s.threads[j]? = some tj ∧ l ∈ tj.held ∧ (l ∈ t.held ∨ ∀ l' ∈ t.held, rank l' < rank l) := by
  have hrefl := hle.refl s.store.db
  have htaken {ws : List ω} (hfree : ¬s.free i ws = true) : ∃ (j : Nat) (tj : Thread Stmt ω ε)
      (l : ℓ), i ≠ j ∧ s.threads[j]? = some tj ∧ l ∈ locksOf Stmt ws ∧ l ∈ tj.held := by
    by_contra hnone
    refine hfree (free_iff.mpr fun j tj hij hj l hl hl' => hnone ⟨j, tj, l, hij, hj, hl, hl'⟩)
  have hthrough := h i t hi
  unfold System.next at hn
  rw [hi] at hn
  cases t with
  | run p =>
      cases p with
      | pure a => cases hopen
      | throw e => exact hthrough.elim
      | tx body k => cases hn
      | stmt st k =>
          dsimp only at hn
          split at hn
          · cases hn
          · split at hn
            · cases hn
            · rename_i hfree
              obtain ⟨j, tj, l, hij, hj, _, hheld⟩ := htaken hfree
              exact ⟨j, tj, l, hij, hj, hheld, Or.inr fun _ hl' => absurd hl' List.not_mem_nil⟩
  | tx seen ws body k =>
      cases body with
      | pure b => cases hn
      | throw e => exact hthrough.elim
      | stmt st kb =>
          dsimp only at hn
          split at hn
          · cases hn
          · rename_i b ws' he
            split at hn
            · cases hn
            · rename_i hfree
              obtain ⟨j, tj, l, hij, hj, hneeds, hheld⟩ := htaken hfree
              exact ⟨j, tj, l, hij, hj, hheld, ((hthrough _ hrefl).2 b ws' he).1 l hneeds⟩

-- Somebody can always move on, as nobody waits for a lock of the highest rank.
theorem AllThrough.exists_next (hle : Growth Stmt le) (h : s.AllThrough g le rank)
    (hexclusive : ∀ (i j : Nat) (t t' : Thread Stmt ω ε), i ≠ j → s.threads[i]? = some t →
      s.threads[j]? = some t' → ∀ l ∈ t.held, l ∉ t'.held) :
    (∀ t ∈ s.threads, t.answered = true) ∨ ∃ i s', s.next i = some s' := by
  by_contra hstuck
  simp only [not_or, not_forall, not_exists, Bool.not_eq_true] at hstuck
  obtain ⟨⟨t₀, ht₀, hopen₀⟩, hnone⟩ := hstuck
  have hnext (i : Nat) : s.next i = none := Option.eq_none_iff_forall_ne_some.mpr (hnone i)
  have hranks (n : Nat) : ∃ (i : Nat) (t : Thread Stmt ω ε) (l : ℓ),
      s.threads[i]? = some t ∧ l ∈ t.held ∧ n ≤ rank l := by
    induction n with
    | zero =>
        obtain ⟨i, hi⟩ := List.mem_iff_getElem?.mp ht₀
        obtain ⟨j, tj, l, _, hj, hl, _⟩ := h.waiting hle hi hopen₀ (hnext i)
        exact ⟨j, tj, l, hj, hl, Nat.zero_le _⟩
    | succ n ih =>
        obtain ⟨i, t, l, hi, hl, hn⟩ := ih
        have hopen : t.answered = false := by
          cases t with
          | run p => cases hl
          | tx seen ws body k => rfl
        obtain ⟨j, tj, l', hij, hj, hl', hrank⟩ := h.waiting hle hi hopen (hnext i)
        have hhigher := hrank.resolve_left fun hown => hexclusive i j t tj hij hi hj l' hown hl'
        exact ⟨j, tj, l', hj, hl', Nat.succ_le_of_lt (lt_of_le_of_lt hn (hhigher l hl))⟩
  obtain ⟨i, t, l, hi, hl, hn⟩ := hranks (((s.threads.flatMap Thread.held).map rank).sum + 1)
  have hmem : rank l ∈ (s.threads.flatMap Thread.held).map rank :=
    List.mem_map_of_mem (List.mem_flatMap.mpr ⟨t, List.mem_of_getElem? hi, hl⟩)
  have hle' := List.single_le_sum (fun _ _ => Nat.zero_le _) _ hmem
  omega

-- No request has failed, all have answered unless somebody can move on, and nobody can
-- do so forever.
structure Completes (s : System Stmt σ ω ε) : Prop where
  failed : ∀ t ∈ s.threads, t.failed = none
  next : (∀ t ∈ s.threads, t.answered = true) ∨ ∃ i s', s.next i = some s'
  finite : Acc (fun s' s : System Stmt σ ω ε => ∃ i, s.next i = some s') s

theorem reaches_of_unkilled {requests : Prog Stmt ε Unit → Prop} (h : ReachesUnkilled requests g s s') :
    Reaches requests g s s' := by
  obtain ⟨schedule, hspawn, _, hplay⟩ := h
  exact reaches_of_play hspawn hplay

theorem exists_unkilled_of_interleave {β : Type} (requests : Prog Stmt ε Unit → Prop)
    (g : Guard Stmt σ) (s : System Stmt σ ω ε) (ps : List (Prog Stmt ε Unit)) (order : List Nat)
    (observe : System Stmt σ ω ε → β) (b : β) (hps : ∀ p ∈ ps, requests p)
    (h : (play g s (interleave ps order)).map observe = some b) :
    ∃ s', ReachesUnkilled requests g s s' ∧ observe s' = b := by
  obtain ⟨s', hs', hb⟩ := Option.map_eq_some_iff.mp h
  have hkill (i : Nat) (e : ε) : (.kill i e : Choice Stmt ε η) ∉ interleave ps order := by
    simp [interleave]
  exact ⟨s', ⟨_, fun p hp => hps p (spawn_mem_interleave.mp hp), hkill, hs'⟩, hb⟩

-- The locks of the open transactions are apart, whatever the requests.
theorem exclusive_of_reaches [LawfulBackend Stmt] {requests : Prog Stmt ε Unit → Prop} {db : σ}
    (h : Reaches requests g (init db) s) (i j : Nat) (t t' : Thread Stmt ω ε) (hij : i ≠ j)
    (hi : s.threads[i]? = some t) (hj : s.threads[j]? = some t') : ∀ l ∈ t.held, l ∉ t'.held := by
  let C : Contract Stmt σ ω := .ofInv (fun _ => True) g
  have hsafe := Reaches.safe (C := C) (fun p _ me st _ => Rules.wp_any (fun _ => True)
    (fun _ => True) (fun _ _ => trivial) (fun _ _ _ _ _ _ _ _ => trivial)
    (fun _ _ _ _ => ⟨trivial, trivial⟩) p st) (fun _ _ _ => ⟨trivial, trivial⟩)
    (init_safe trivial) h
  exact hsafe.1.exclusive i j t t' hij hi hj

-- Requests whose statements go through come to their end.
theorem completes_of_through [LawfulBackend Stmt] (hle : Growth Stmt le)
    {requests : Prog Stmt ε Unit → Prop} {db : σ}
    (hrequests : ∀ p, requests p → through g le rank (fun _ _ => True) p db)
    (h : ReachesUnkilled requests g (init db) s) : s.Completes := by
  have hexclusive := exclusive_of_reaches (reaches_of_unkilled h)
  obtain ⟨schedule, hspawn, hkill, hplay⟩ := h
  have hstart : (init db : System Stmt σ ω ε).AllThrough g le rank := fun i t hi => by
    simp [init] at hi
  have hthrough := hstart.play hle hrequests hspawn hkill (hle.refl db) hplay
  refine ⟨fun t ht => ?_, hthrough.exists_next hle hexclusive, wellFounded_next.apply s⟩
  obtain ⟨i, hi⟩ := List.mem_iff_getElem?.mp ht
  have ht' := hthrough i t hi
  cases t with
  | tx seen ws body k => rfl
  | run p =>
      cases p with
      | throw e => exact ht'.elim
      | _ => rfl

end System

end ReadCommitted
