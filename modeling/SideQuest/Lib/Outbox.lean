import SideQuest.Lib.Interleaving
import SideQuest.Lib.Log
import Mathlib.Algebra.Ring.Nat

-- Announcements of what has been committed. A request owes one for every commit of a
-- cause, makes none that it does not owe, and owes nothing any more when it answers.

namespace ReadCommitted

-- The committed writes, each with the thread that made it.
def written {ω : Type} (log : List (ℕ × List ω)) : List (ℕ × ω) :=
  log.flatMap fun entry => entry.2.map (entry.1, ·)

-- The committed writes that are meant.
def countOf {ω : Type} (p : ω → Bool) (log : List (ℕ × List ω)) : ℕ :=
  (written log).countP fun entry => p entry.2

theorem countOf_concat {ω : Type} (p : ω → Bool) (log : List (ℕ × List ω)) (me : ℕ) (ws : List ω) :
    countOf p (log ++ [(me, ws)]) = countOf p log + ws.countP p := by
  simp only [countOf, written, List.flatMap_append, List.flatMap_singleton, List.countP_append,
    List.countP_map]
  rfl

theorem filterMap_written_concat {ω β : Type} (f : ω → Option β) (log : List (ℕ × List ω)) (me : ℕ)
    (ws : List ω) : (written (log ++ [(me, ws)])).filterMap (fun e => f e.2) =
      (written log).filterMap (fun e => f e.2) ++ ws.filterMap f := by
  rw [written, List.flatMap_append, List.filterMap_append, List.flatMap_singleton,
    List.filterMap_map]
  rfl

theorem written_own {ω : Type} (log : List (ℕ × List ω)) (i : ℕ) :
    written (log.filter fun entry => entry.1 = i) =
      (written log).filter fun entry => entry.1 = i := by
  induction log with
  | nil => rfl
  | cons entry log ih =>
      have hcons (rest : List (ℕ × List ω)) :
          written (entry :: rest) = entry.2.map (entry.1, ·) ++ written rest := List.flatMap_cons
      rw [hcons, List.filter_append, ← ih]
      by_cases hi : entry.1 = i
      · have hall : (entry.2.map (entry.1, ·)).filter (fun entry => entry.1 = i) =
            entry.2.map (entry.1, ·) := by simp [hi]
        rw [List.filter_cons_of_pos (by simpa using hi), hcons, hall]
      · have hnone : (entry.2.map (entry.1, ·)).filter (fun entry => entry.1 = i) = [] := by
          simp [hi]
        rw [List.filter_cons_of_neg (by simpa using hi), hnone, List.nil_append]

-- When no thread has more of one kind than of another, nor has the log.
theorem countOf_le_of_own {ω : Type} {p q : ω → Bool} {log : List (ℕ × List ω)}
    (h : ∀ i, countOf p (log.filter fun entry => entry.1 = i) ≤
      countOf q (log.filter fun entry => entry.1 = i)) : countOf p log ≤ countOf q log := by
  refine Log.countP_le_of_own fun i => ?_
  rw [← written_own]
  exact h i

variable {Stmt : Type → Type} {σ ω ℓ ε η : Type} [Backend Stmt σ ω ℓ ε η]

theorem countOf_own_commit (p : ω → Bool) (s : Store σ ω) (me : ℕ) (ws : List ω) :
    countOf p ((s.commit Stmt me ws).own me) = countOf p (s.own me) + ws.countP p := by
  cases ws with
  | nil => rfl
  | cons w ws => rw [Store.own_commit_self, countOf_concat]

section

variable {ι : Type} (cause effect : ι → ω → Bool)

-- What a transaction may commit settles `Q`, whatever its statements read.
def Tx.Settles {α : Type} (Q : List ω → α → Prop) : List ω → Tx Stmt ε α → Prop
  | ws, .pure a => Q ws a
  | _, .throw _ => True
  | ws, .stmt st k => ∀ db b ws', Backend.exec st db = .ok (b, ws') →
      Tx.Settles Q (ws ++ ws') (k b)

-- From `due` announcements of each kind owed to `due'`.
def Pays (due : ι → ℕ) (ws : List ω) (due' : ι → ℕ) : Prop :=
  ∀ i, due' i + ws.countP (effect i) = due i + ws.countP (cause i)

-- The request pays what it owes, whatever its statements read. `Q` is about what it
-- still owes when it answers.
def Settles {α : Type} (Q : (ι → ℕ) → α → Prop) : (ι → ℕ) → Prog Stmt ε α → Prop
  | due, .pure a => Q due a
  | _, .throw _ => True
  | due, .stmt st k => ∀ db b ws, Backend.exec st db = .ok (b, ws) →
      ∃ due', Pays cause effect due ws due' ∧ Settles Q due' (k b)
  | due, .tx body k => Tx.Settles
      (fun ws b => ∃ due', Pays cause effect due ws due' ∧ Settles Q due' (k b)) [] body

-- Nothing is left to announce.
abbrev SettlesAll (p : Prog Stmt ε Unit) : Prop := Settles cause effect (fun due _ => due = 0) 0 p

end

variable {ι : Type} {cause effect : ι → ω → Bool} {α β : Type}

-- One announcement of this kind is owed.
def owed [DecidableEq ι] (k : ι) : ι → ℕ := fun i => if i = k then 1 else 0

-- Writes that need no announcement and are none.
theorem pays_mute {due : ι → ℕ} {ws : List ω} (hcause : ∀ i, ws.countP (cause i) = 0)
    (heffect : ∀ i, ws.countP (effect i) = 0) : Pays cause effect due ws due := fun i => by
  rw [hcause, heffect]

theorem pays_cause [DecidableEq ι] {due : ι → ℕ} {ws : List ω} {k : ι}
    (hcause : ∀ i, ws.countP (cause i) = owed k i) (heffect : ∀ i, ws.countP (effect i) = 0) :
    Pays cause effect due ws (due + owed k) := fun i => by
  rw [hcause, heffect, Pi.add_apply, Nat.add_zero]

theorem pays_effect [DecidableEq ι] {due : ι → ℕ} {ws : List ω} {k : ι}
    (hcause : ∀ i, ws.countP (cause i) = 0) (heffect : ∀ i, ws.countP (effect i) = owed k i) :
    Pays cause effect (due + owed k) ws due := fun i => by
  rw [hcause, heffect, Pi.add_apply, Nat.add_zero]

theorem Pays.append {due due' due'' : ι → ℕ} {ws ws' : List ω} (h : Pays cause effect due ws due')
    (h' : Pays cause effect due' ws' due'') : Pays cause effect due (ws ++ ws') due'' := by
  intro i
  have hfirst := h i
  have hsecond := h' i
  rw [List.countP_append, List.countP_append]
  omega

theorem Tx.Settles.bind {Q : List ω → β → Prop} {p : Tx Stmt ε α} {f : α → Tx Stmt ε β}
    {ws : List ω} (h : Tx.Settles (fun ws' a => Tx.Settles Q ws' (f a)) ws p) :
    Tx.Settles Q ws (p >>= f) := by
  induction p generalizing ws with
  | pure a => exact h
  | throw e => trivial
  | stmt st k ih => exact fun db b ws' he => ih b (h db b ws' he)

theorem Tx.Settles.mono {Q Q' : List ω → α → Prop} (hQ : ∀ ws a, Q ws a → Q' ws a)
    {p : Tx Stmt ε α} {ws : List ω} (h : Tx.Settles Q ws p) : Tx.Settles Q' ws p := by
  induction p generalizing ws with
  | pure a => exact hQ ws a h
  | throw e => trivial
  | stmt st k ih => exact fun db b ws' he => ih b (h db b ws' he)

theorem Settles.bind {Q : (ι → ℕ) → β → Prop} {p : Prog Stmt ε α} {f : α → Prog Stmt ε β}
    {due : ι → ℕ}
    (h : Settles cause effect (fun due' a => Settles cause effect Q due' (f a)) due p) :
    Settles cause effect Q due (p >>= f) := by
  induction p generalizing due with
  | pure a => exact h
  | throw e => trivial
  | stmt st k ih =>
      intro db b ws he
      obtain ⟨due', hpays, hk⟩ := h db b ws he
      exact ⟨due', hpays, ih b hk⟩
  | tx body k ih =>
      refine Tx.Settles.mono (fun ws b hb => ?_) h
      obtain ⟨due', hpays, hk⟩ := hb
      exact ⟨due', hpays, ih b hk⟩

section Statements

variable {γ : Type} {Q : (ι → ℕ) → β → Prop} {due : ι → ℕ}

theorem settles_query {st : Stmt α} {answer : σ → α} {f : α → Prog Stmt ε β}
    (hst : ∀ db, Backend.exec st db = .ok (answer db, []))
    (h : ∀ db, Settles cause effect Q due (f (answer db))) :
    Settles cause effect Q due (Prog.call st >>= f) := by
  intro db b ws he
  rw [hst] at he
  cases he
  exact ⟨due, fun _ => rfl, h db⟩

theorem settles_call {st : Stmt α} {f : α → Prog Stmt ε β}
    (h : ∀ db a ws, Backend.exec st db = .ok (a, ws) →
      ∃ due', Pays cause effect due ws due' ∧ Settles cause effect Q due' (f a)) :
    Settles cause effect Q due (Prog.call st >>= f) := h

theorem settles_expect {found : Option α} {e : ε} {f : α → Prog Stmt ε β}
    (h : ∀ a, found = some a → Settles cause effect Q due (f a)) :
    Settles cause effect Q due (Prog.expect found e >>= f) := by
  cases found with
  | none => trivial
  | some a => exact h a rfl

theorem settles_require {c : Prop} [Decidable c] {e : ε} {f : Unit → Prog Stmt ε β}
    (h : c → Settles cause effect Q due (f ())) :
    Settles cause effect Q due (Prog.require c e >>= f) := by
  unfold Prog.require
  split
  · rename_i hc
    exact h hc
  · trivial

theorem settles_transaction {body : Tx Stmt ε α} {f : α → Prog Stmt ε β}
    (h : Tx.Settles (fun ws a => ∃ due', Pays cause effect due ws due' ∧
      Settles cause effect Q due' (f a)) [] body) :
    Settles cause effect Q due (Prog.transaction body >>= f) := h

theorem settles_void {p : Prog Stmt ε α}
    (h : Settles cause effect (fun due' _ => due' = 0) 0 p) : SettlesAll cause effect p.void :=
  Settles.bind h

theorem settles_readOnly [LawfulBackend Stmt] {p : Prog Stmt ε α} (hp : Rules.ReadOnly p)
    {f : α → Prog Stmt ε β} (h : ∀ a, Settles cause effect Q due (f a)) :
    Settles cause effect Q due (p >>= f) := by
  induction p with
  | pure a => exact h a
  | throw e => trivial
  | stmt st k ih =>
      intro db b ws he
      obtain rfl := hp.1 db b ws he
      exact ⟨due, fun _ => rfl, ih b (hp.2 b)⟩
  | tx body k ih => exact hp.elim

theorem tx_settles_query {Q : List ω → β → Prop} {st : Stmt α} {answer : σ → α}
    {f : α → Tx Stmt ε β} {ws : List ω} (hst : ∀ db, Backend.exec st db = .ok (answer db, []))
    (h : ∀ db, Tx.Settles Q ws (f (answer db))) : Tx.Settles Q ws (Tx.call st >>= f) := by
  intro db b ws' he
  rw [hst] at he
  cases he
  rw [List.append_nil]
  exact h db

theorem tx_settles_call {Q : List ω → β → Prop} {st : Stmt α} {f : α → Tx Stmt ε β} {ws : List ω}
    (h : ∀ db a ws', Backend.exec st db = .ok (a, ws') → Tx.Settles Q (ws ++ ws') (f a)) :
    Tx.Settles Q ws (Tx.call st >>= f) := h

theorem tx_settles_expect {Q : List ω → β → Prop} {found : Option α} {e : ε}
    {f : α → Tx Stmt ε β} {ws : List ω} (h : ∀ a, found = some a → Tx.Settles Q ws (f a)) :
    Tx.Settles Q ws (Tx.expect found e >>= f) := by
  cases found with
  | none => trivial
  | some a => exact h a rfl

theorem tx_settles_require {Q : List ω → β → Prop} {c : Prop} [Decidable c] {e : ε}
    {f : Unit → Tx Stmt ε β} {ws : List ω} (h : c → Tx.Settles Q ws (f ())) :
    Tx.Settles Q ws (Tx.require c e >>= f) := by
  unfold Tx.require
  split
  · rename_i hc
    exact h hc
  · trivial

end Statements

-- What a thread has left to announce, against what it has committed.
def Thread.Settles (cause effect : ι → ω → Bool) (own : List (ℕ × List ω))
    (t : Thread Stmt ω ε) : Prop :=
  ∃ due : ι → ℕ, (∀ i, due i + countOf (effect i) own = countOf (cause i) own) ∧
    match t with
    | .run p => ReadCommitted.Settles cause effect (fun due' _ => due' = 0) due p
    | .tx _ ws body k => Tx.Settles (fun ws b => ∃ due', Pays cause effect due ws due' ∧
        ReadCommitted.Settles cause effect (fun due' _ => due' = 0) due' (k b)) ws body

namespace System

structure Settled (cause effect : ι → ω → Bool) (s : System Stmt σ ω ε) : Prop where
  threads : ∀ (i : ℕ) (t : Thread Stmt ω ε), s.threads[i]? = some t →
    t.Settles cause effect (s.store.own i)
  unborn : ∀ i, s.threads.length ≤ i → s.store.own i = []

variable {s s' : System Stmt σ ω ε}

theorem Settled.set (h : s.Settled cause effect) {i : ℕ} {t : Thread Stmt ω ε} {st : Store σ ω}
    (hi : i < s.threads.length) (ht : t.Settles cause effect (st.own i))
    (hothers : ∀ j, i ≠ j → st.own j = s.store.own j) :
    Settled cause effect { s.set i t with store := st } where
  threads j tj hj := by
    simp only [System.set, List.getElem?_set] at hj
    split_ifs at hj with hij
    · cases hj
      exact hij ▸ ht
    · rw [hothers j hij]
      exact h.threads j tj hj
  unborn j hj := by
    simp only [System.set, List.length_set] at hj
    rw [hothers j (by omega)]
    exact h.unborn j hj

theorem Settled.commit (h : s.Settled cause effect) {i : ℕ} {p : Prog Stmt ε Unit} {ws : List ω}
    {due due' : ι → ℕ} (hi : i < s.threads.length)
    (hdue : ∀ j, due j + countOf (effect j) (s.store.own i) = countOf (cause j) (s.store.own i))
    (hpays : Pays cause effect due ws due')
    (hp : Settles cause effect (fun due' _ => due' = 0) due' p) :
    Settled cause effect { s.set i (.run p) with store := s.store.commit Stmt i ws } := by
  refine h.set hi ⟨due', fun j => ?_, hp⟩ fun j hij => Store.own_commit_ne s.store hij ws
  rw [countOf_own_commit, countOf_own_commit]
  have hj := hpays j
  have howed := hdue j
  omega

variable [DecidableEq ℓ]

-- One step of one thread, by the kind of its next statement.
theorem Settled.next (h : s.Settled cause effect) {i : ℕ} (hn : s.next i = some s') :
    s'.Settled cause effect := by
  have hlt {t : Thread Stmt ω ε} (hi : s.threads[i]? = some t) : i < s.threads.length :=
    (List.getElem?_eq_some_iff.mp hi).1
  unfold System.next at hn
  split at hn
  · cases hn
  · cases hn
  · cases hn
  · rename_i st k hi
    obtain ⟨due, hdue, hsettles⟩ := h.threads i _ hi
    split at hn
    · cases hn
      exact h.set (hlt hi) ⟨due, hdue, trivial⟩ fun _ _ => rfl
    · rename_i b ws he
      split at hn
      · cases hn
        obtain ⟨due', hpays, hk⟩ := hsettles _ b ws he
        exact h.commit (hlt hi) hdue hpays hk
      · cases hn
  · rename_i body k hi
    cases hn
    obtain ⟨due, hdue, hsettles⟩ := h.threads i _ hi
    exact h.set (hlt hi) ⟨due, hdue, hsettles⟩ fun _ _ => rfl
  · rename_i seen ws b k hi
    cases hn
    obtain ⟨due, hdue, due', hpays, hk⟩ := h.threads i _ hi
    exact h.commit (hlt hi) hdue hpays hk
  · rename_i hi
    cases hn
    obtain ⟨due, hdue, _⟩ := h.threads i _ hi
    exact h.set (hlt hi) ⟨due, hdue, trivial⟩ fun _ _ => rfl
  · rename_i seen ws _ st kb k hi
    obtain ⟨due, hdue, hsettles⟩ := h.threads i _ hi
    split at hn
    · cases hn
      exact h.set (hlt hi) ⟨due, hdue, trivial⟩ fun _ _ => rfl
    · rename_i b ws' he
      split at hn
      · cases hn
        exact h.set (hlt hi) ⟨due, hdue, hsettles _ b ws' he⟩ fun _ _ => rfl
      · cases hn

-- Whatever the interleaving and whoever is killed on the way.
theorem Reaches.settled {requests : Prog Stmt ε Unit → Prop} {g : Guard Stmt σ}
    (hreq : ∀ p, requests p → SettlesAll cause effect p) (hs : s.Settled cause effect)
    (h : Reaches requests g s s') : s'.Settled cause effect := by
  induction h with
  | refl => exact hs
  | @spawn s₁ p _ hp ih =>
      refine ⟨fun i t ht => ?_, fun i hi => ?_⟩
      · simp only [System.spawn, List.getElem?_append] at ht
        split_ifs at ht with hlt
        · exact ih.threads i t ht
        · obtain ⟨hzero, rfl⟩ : i - s₁.threads.length = 0 ∧ Thread.run p = t := by
            simpa [List.getElem?_singleton] using ht
          refine ⟨0, fun j => ?_, hreq p hp⟩
          rw [show (s₁.spawn p).store = s₁.store from rfl, ih.unborn i (by omega)]
          rfl
      · refine ih.unborn i ?_
        simp only [System.spawn, List.length_append, List.length_singleton] at hi
        omega
  | next _ _ hn ih => exact ih.next hn
  | @kill s₁ i e _ ih =>
      by_cases hi : i < s₁.threads.length
      · obtain ⟨due, hdue, _⟩ := ih.threads i s₁.threads[i] (List.getElem?_eq_getElem hi)
        exact ih.set hi ⟨due, hdue, trivial⟩ fun _ _ => rfl
      · have hsame : s₁.kill i e = s₁ := by
          simp [System.kill, System.set, List.set_eq_of_length_le (Nat.le_of_not_lt hi)]
        rwa [hsame]
  | happen a _ ih => exact ⟨ih.threads, ih.unborn⟩

omit [DecidableEq ℓ] in
theorem init_settled (db : σ) : (init db : System Stmt σ ω ε).Settled cause effect where
  threads i t ht := by simp [init] at ht
  unborn _ _ := rfl

omit [DecidableEq ℓ] in
-- No thread has announced what it has not committed.
theorem Settled.own_le (h : s.Settled cause effect) (i : ℕ) (kind : ι) :
    countOf (effect kind) (s.store.own i) ≤ countOf (cause kind) (s.store.own i) := by
  by_cases hi : i < s.threads.length
  · obtain ⟨due, hdue, _⟩ := h.threads i s.threads[i] (List.getElem?_eq_getElem hi)
    have hkind := hdue kind
    omega
  · rw [h.unborn i (Nat.le_of_not_lt hi)]
    exact Nat.le_refl _

omit [DecidableEq ℓ] in
theorem Settled.le (h : s.Settled cause effect) (kind : ι) :
    countOf (effect kind) s.store.wal ≤ countOf (cause kind) s.store.wal :=
  countOf_le_of_own fun i => h.own_le i kind

omit [DecidableEq ℓ] in
-- A request that has answered has announced all that it has committed.
theorem Settled.answered (h : s.Settled cause effect) {i : ℕ}
    (hi : s.threads[i]? = some (.run (.pure ()))) (kind : ι) :
    countOf (effect kind) (s.store.own i) = countOf (cause kind) (s.store.own i) := by
  obtain ⟨due, hdue, hzero⟩ := h.threads i _ hi
  have hnothing : due = 0 := hzero
  have hkind := hdue kind
  rw [hnothing] at hkind
  exact (Nat.zero_add _).symm.trans hkind

end System

end ReadCommitted
