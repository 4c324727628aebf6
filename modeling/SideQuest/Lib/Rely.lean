import SideQuest.Lib.ReadCommitted

-- Rely-guarantee reasoning about requests. `rely` says what may happen between two
-- steps of a thread, `inv` and `guar` what each of its own commits must establish.

namespace ReadCommitted

-- What the locks are worth: a write changes nothing outside its own locks.
class LawfulBackend (Stmt : Type → Type) {σ ω ℓ ε η : outParam Type}
    [Backend Stmt σ ω ℓ ε η] where
  -- The row or key under a lock is the same in both.
  same : ℓ → σ → σ → Prop
  same_refl : ∀ l s, same l s s
  same_trans : ∀ {l s s' s''}, same l s s' → same l s' s'' → same l s s''
  same_apply : ∀ {l} s {w}, l ∉ Backend.locks Stmt w → same l s (Backend.apply Stmt s w)
  same_happen : ∀ l s a, same l s (Backend.happen Stmt a s)

variable {Stmt : Type → Type} {σ ω ℓ ε η : Type} [Backend Stmt σ ω ℓ ε η] [LawfulBackend Stmt]

open LawfulBackend in
theorem same_view {l : ℓ} {ws : List ω} (h : l ∉ locksOf Stmt ws) (db : σ) :
    same Stmt l db (view Stmt db ws) := by
  induction ws generalizing db with
  | nil => exact same_refl l db
  | cons w ws ih =>
      rw [locksOf_cons, List.mem_append, not_or] at h
      exact same_trans (same_apply db h.1) (ih h.2 _)

-- `rely me locks s s'`: the others can take the store from `s` to `s'` while thread
-- `me` holds `locks`.
structure Rules (Stmt : Type → Type) {σ ω ℓ ε η : outParam Type} [Backend Stmt σ ω ℓ ε η]
    [LawfulBackend Stmt] where
  inv : Store σ ω → Prop
  rely : Nat → List ℓ → Store σ ω → Store σ ω → Prop
  guar : Store σ ω → Store σ ω → Prop
  guard : Guard Stmt σ
  guar_refl : ∀ s, guar s s
  rely_inv : ∀ {me locks s s'}, rely me locks s s' → inv s'
  rely_same : ∀ {me locks s s'}, rely me locks s s' → ∀ l ∈ locks,
    LawfulBackend.same Stmt l s.db s'.db
  rely_refl : ∀ {me locks s}, inv s → rely me locks s s
  rely_trans : ∀ {me locks s s' s''}, rely me locks s s' → rely me locks s' s'' →
    rely me locks s s''

namespace Rules

variable (R : Rules Stmt) (me : Nat)

-- The own commit `ws` keeps the invariant and the guarantee.
def Commits (s : Store σ ω) (ws : List ω) : Prop :=
  R.inv (s.commit Stmt me ws) ∧ R.guar s (s.commit Stmt me ws)

-- The weakest precondition of a transaction's body, for a postcondition that holds
-- whenever the body is about to commit. The store is the committed one.
def wpTx {α : Type} (Q : List (Seen Stmt) → List ω → α → Store σ ω → Prop) :
    Tx Stmt ε α → List (Seen Stmt) → List ω → Store σ ω → Prop
  | .pure a, seen, ws, s => ∀ s', R.rely me (locksOf Stmt ws) s s' → Q seen ws a s'
  | .throw _, _, _, _ => True
  | .stmt st k, seen, ws, s =>
      ∀ s', R.rely me (locksOf Stmt ws) s s' → R.guard seen st (view Stmt s'.db ws) = true →
        ∀ b ws', Backend.exec st (view Stmt s'.db ws) = .ok (b, ws') →
          wpTx Q (k b) (⟨st, b⟩ :: seen) (ws ++ ws') s'

-- The weakest precondition of a request: every commit is fine, and the postcondition
-- holds when it answers.
def wp {α : Type} (Q : α → Store σ ω → Prop) : Prog Stmt ε α → Store σ ω → Prop
  | .pure a, s => ∀ s', R.rely me [] s s' → Q a s'
  | .throw _, _ => True
  | .stmt st k, s =>
      ∀ s', R.rely me [] s s' → R.guard [] st s'.db = true →
        ∀ b ws, Backend.exec st s'.db = .ok (b, ws) →
          R.Commits me s' ws ∧ wp Q (k b) (s'.commit Stmt me ws)
  | .tx body k, s =>
      R.wpTx me (fun _ ws b s' => R.Commits me s' ws ∧ wp Q (k b) (s'.commit Stmt me ws)) body [] [] s

variable {R me} {α β : Type}

theorem commits_nil {s : Store σ ω} (h : R.inv s) : R.Commits me s [] := ⟨h, R.guar_refl s⟩

theorem wpTx_weaken {Q : List (Seen Stmt) → List ω → α → Store σ ω → Prop} {p : Tx Stmt ε α}
    {seen : List (Seen Stmt)} {ws : List ω} {s s' : Store σ ω}
    (h : R.wpTx me Q p seen ws s) (hr : R.rely me (locksOf Stmt ws) s s') :
    R.wpTx me Q p seen ws s' := by
  cases p with
  | pure a => exact fun s'' hr' => h s'' (R.rely_trans hr hr')
  | throw e => trivial
  | stmt st k => exact fun s'' hr' => h s'' (R.rely_trans hr hr')

theorem wp_weaken {Q : α → Store σ ω → Prop} {p : Prog Stmt ε α} {s s' : Store σ ω}
    (h : R.wp me Q p s) (hr : R.rely me [] s s') : R.wp me Q p s' := by
  cases p with
  | pure a => exact fun s'' hr' => h s'' (R.rely_trans hr hr')
  | throw e => trivial
  | stmt st k => exact fun s'' hr' => h s'' (R.rely_trans hr hr')
  | tx body k => exact wpTx_weaken h hr

-- It is enough to look at the stores the others can lead to.
theorem wpTx_of_rely {Q : List (Seen Stmt) → List ω → α → Store σ ω → Prop} {p : Tx Stmt ε α}
    {seen : List (Seen Stmt)} {ws : List ω} {s : Store σ ω}
    (h : ∀ s', R.rely me (locksOf Stmt ws) s s' → R.wpTx me Q p seen ws s') :
    R.wpTx me Q p seen ws s := by
  cases p with
  | pure a => exact fun s' hr => h s' hr s' (R.rely_refl (R.rely_inv hr))
  | throw e => trivial
  | stmt st k => exact fun s' hr => h s' hr s' (R.rely_refl (R.rely_inv hr))

theorem wp_of_rely {Q : α → Store σ ω → Prop} {p : Prog Stmt ε α} {s : Store σ ω}
    (h : ∀ s', R.rely me [] s s' → R.wp me Q p s') : R.wp me Q p s := by
  cases p with
  | pure a => exact fun s' hr => h s' hr s' (R.rely_refl (R.rely_inv hr))
  | throw e => trivial
  | stmt st k => exact fun s' hr => h s' hr s' (R.rely_refl (R.rely_inv hr))
  | tx body k => exact wpTx_of_rely h

theorem wpTx_bind {Q : List (Seen Stmt) → List ω → β → Store σ ω → Prop} {p : Tx Stmt ε α}
    {f : α → Tx Stmt ε β} {seen : List (Seen Stmt)} {ws : List ω} {s : Store σ ω}
    (h : R.wpTx me (fun seen' ws' a s' => R.wpTx me Q (f a) seen' ws' s') p seen ws s) :
    R.wpTx me Q (p >>= f) seen ws s := by
  induction p generalizing seen ws s with
  | pure a => exact wpTx_of_rely h
  | throw e => trivial
  | stmt st k ih => exact fun s' hr hg b ws' he => ih b (h s' hr hg b ws' he)

theorem wpTx_mono {Q Q' : List (Seen Stmt) → List ω → α → Store σ ω → Prop} {p : Tx Stmt ε α}
    {seen : List (Seen Stmt)} {ws : List ω} {s : Store σ ω}
    (hQ : ∀ seen ws a s, Q seen ws a s → Q' seen ws a s) (h : R.wpTx me Q p seen ws s) :
    R.wpTx me Q' p seen ws s := by
  induction p generalizing seen ws s with
  | pure a => exact fun s' hr => hQ _ _ _ _ (h s' hr)
  | throw e => trivial
  | stmt st k ih => exact fun s' hr hg b ws' he => ih b (h s' hr hg b ws' he)

theorem wp_bind {Q : β → Store σ ω → Prop} {p : Prog Stmt ε α} {f : α → Prog Stmt ε β}
    {s : Store σ ω} (h : R.wp me (fun a s' => R.wp me Q (f a) s') p s) :
    R.wp me Q (p >>= f) s := by
  induction p generalizing s with
  | pure a => exact wp_of_rely h
  | throw e => trivial
  | stmt st k ih => exact fun s' hr hg b ws he => ⟨(h s' hr hg b ws he).1, ih b (h s' hr hg b ws he).2⟩
  | tx body k ih => exact wpTx_mono (fun _ ws b s' hc => ⟨hc.1, ih b hc.2⟩) h

theorem wp_mono {Q Q' : α → Store σ ω → Prop} {p : Prog Stmt ε α} {s : Store σ ω}
    (hQ : ∀ a s, Q a s → Q' a s) (h : R.wp me Q p s) : R.wp me Q' p s := by
  induction p generalizing s with
  | pure a => exact fun s' hr => hQ a s' (h s' hr)
  | throw e => trivial
  | stmt st k ih => exact fun s' hr hg b ws he => ⟨(h s' hr hg b ws he).1, ih b (h s' hr hg b ws he).2⟩
  | tx body k ih => exact wpTx_mono (fun _ ws b s' hc => ⟨hc.1, ih b hc.2⟩) h

theorem wp_void {p : Prog Stmt ε α} {s : Store σ ω} (h : R.wp me (fun _ _ => True) p s) :
    R.wp me (fun _ _ => True) p.void s :=
  wp_bind (wp_mono (fun _ _ _ _ _ => trivial) h)

section Statements

variable {γ : Type} {Q : List (Seen Stmt) → List ω → β → Store σ ω → Prop}
  {P : β → Store σ ω → Prop} {seen : List (Seen Stmt)} {ws : List ω} {s : Store σ ω}

-- A statement that only reads.
theorem wpTx_query {st : Stmt α} {answer : σ → α} {f : α → Tx Stmt ε β}
    (hst : ∀ db, Backend.exec st db = .ok (answer db, []))
    (h : ∀ s', R.rely me (locksOf Stmt ws) s s' →
      R.wpTx me Q (f (answer (view Stmt s'.db ws)))
        (⟨st, answer (view Stmt s'.db ws)⟩ :: seen) ws s') :
    R.wpTx me Q (Tx.call st >>= f) seen ws s := by
  intro s' hr _ b ws' he
  rw [hst] at he
  cases he
  rw [List.append_nil]
  exact h s' hr

-- A statement that may write.
theorem wpTx_call {st : Stmt α} {f : α → Tx Stmt ε β}
    (h : ∀ s', R.rely me (locksOf Stmt ws) s s' →
      R.guard seen st (view Stmt s'.db ws) = true →
        ∀ a ws', Backend.exec st (view Stmt s'.db ws) = .ok (a, ws') →
          R.wpTx me Q (f a) (⟨st, a⟩ :: seen) (ws ++ ws') s') :
    R.wpTx me Q (Tx.call st >>= f) seen ws s := h

theorem wpTx_expect {found : Option α} {e : ε} {f : α → Tx Stmt ε β}
    (h : ∀ a, found = some a → R.wpTx me Q (f a) seen ws s) :
    R.wpTx me Q (Tx.expect found e >>= f) seen ws s := by
  cases found with
  | none => trivial
  | some a => exact h a rfl

theorem wpTx_require {c : Prop} [Decidable c] {e : ε} {f : Unit → Tx Stmt ε β}
    (h : c → R.wpTx me Q (f ()) seen ws s) :
    R.wpTx me Q (Tx.require c e >>= f) seen ws s := by
  unfold Tx.require
  split
  · rename_i hc
    exact h hc
  · trivial

theorem wp_query {st : Stmt α} {answer : σ → α} {f : α → Prog Stmt ε β}
    (hst : ∀ db, Backend.exec st db = .ok (answer db, []))
    (h : ∀ s', R.rely me [] s s' → R.wp me P (f (answer s'.db)) s') :
    R.wp me P (Prog.call st >>= f) s := by
  intro s' hr _ b ws' he
  rw [hst] at he
  cases he
  exact ⟨commits_nil (R.rely_inv hr), h s' hr⟩

theorem wp_call {st : Stmt α} {f : α → Prog Stmt ε β}
    (h : ∀ s', R.rely me [] s s' → R.guard [] st s'.db = true →
      ∀ a ws, Backend.exec st s'.db = .ok (a, ws) →
        R.Commits me s' ws ∧ R.wp me P (f a) (s'.commit Stmt me ws)) :
    R.wp me P (Prog.call st >>= f) s := h

theorem wp_transaction {body : Tx Stmt ε α} {f : α → Prog Stmt ε β}
    (h : R.wpTx me (fun _ ws a s' => R.Commits me s' ws ∧
      R.wp me P (f a) (s'.commit Stmt me ws)) body [] [] s) :
    R.wp me P (Prog.transaction body >>= f) s := h

theorem wp_expect {found : Option α} {e : ε} {f : α → Prog Stmt ε β}
    (h : ∀ a, found = some a → R.wp me P (f a) s) :
    R.wp me P (Prog.expect found e >>= f) s := by
  cases found with
  | none => trivial
  | some a => exact h a rfl

theorem wp_require {c : Prop} [Decidable c] {e : ε} {f : Unit → Prog Stmt ε β}
    (h : c → R.wp me P (f ()) s) : R.wp me P (Prog.require c e >>= f) s := by
  unfold Prog.require
  split
  · rename_i hc
    exact h hc
  · trivial

-- A request without writes or transactions.
def ReadOnly : Prog Stmt ε α → Prop
  | .pure _ => True
  | .throw _ => True
  | .stmt st k => (∀ db b ws, Backend.exec st db = .ok (b, ws) → ws = []) ∧ ∀ b, ReadOnly (k b)
  | .tx _ _ => False

-- A request that only asks, and gets an answer on any data.
def Queries : Prog Stmt ε α → Prop
  | .pure _ => True
  | .throw _ => False
  | .stmt st k => (∀ db, ∃ b, Backend.exec st db = .ok (b, [])) ∧ ∀ b, Queries (k b)
  | .tx _ _ => False

omit [LawfulBackend Stmt] in
theorem Queries.readOnly {p : Prog Stmt ε α} (h : Queries p) : ReadOnly p := by
  induction p with
  | pure a => trivial
  | throw e => exact h.elim
  | stmt st k ih =>
      refine ⟨fun db b ws he => ?_, fun b => ih b (h.2 b)⟩
      obtain ⟨b', hb'⟩ := h.1 db
      rw [hb'] at he
      cases he
      rfl
  | tx body k ih => exact h.elim

theorem wp_readOnly {p : Prog Stmt ε α} (hp : ReadOnly p) {f : α → Prog Stmt ε β}
    (h : ∀ a s', R.rely me [] s s' → R.wp me P (f a) s') : R.wp me P (p >>= f) s := by
  induction p generalizing s with
  | pure a => exact wp_of_rely (h a)
  | throw e => trivial
  | stmt st k ih =>
      intro s' hr _ b ws he
      obtain rfl := hp.1 _ b ws he
      refine ⟨commits_nil (R.rely_inv hr), ih b (hp.2 b) fun a s'' hr' => ?_⟩
      exact h a s'' (R.rely_trans hr hr')
  | tx body k ih => exact hp.elim

end Statements

-- Requests without transactions, each of whose statements is as `ok` says.
section Autocommit

def Autocommits (ok : {β : Type} → Stmt β → Prop) : Prog Stmt ε α → Prop
  | .pure _ => True
  | .throw _ => True
  | .stmt st k => ok st ∧ ∀ b, Autocommits ok (k b)
  | .tx _ _ => False

omit [LawfulBackend Stmt] in
theorem Autocommits.bind {ok : {β : Type} → Stmt β → Prop} {p : Prog Stmt ε α}
    {f : α → Prog Stmt ε β} (hp : Autocommits ok p) (hf : ∀ a, Autocommits ok (f a)) :
    Autocommits ok (p >>= f) := by
  induction p with
  | pure a => exact hf a
  | throw e => trivial
  | stmt st k ih => exact ⟨hp.1, fun b => ih b (hp.2 b)⟩
  | tx body k ih => exact hp.elim

-- It is enough to look at one statement.
theorem wp_autocommits {ok : {β : Type} → Stmt β → Prop}
    (hcommit : ∀ {γ : Type} (st : Stmt γ) s b ws, ok st → R.inv s →
      Backend.exec st s.db = .ok (b, ws) → R.Commits me s ws)
    {p : Prog Stmt ε α} (hp : Autocommits ok p) (s : Store σ ω) :
    R.wp me (fun _ _ => True) p s := by
  induction p generalizing s with
  | pure a => exact fun _ _ => trivial
  | throw e => trivial
  | stmt st k ih =>
      intro s' hr _ b ws he
      exact ⟨hcommit st s' b ws hp.1 (R.rely_inv hr) he, ih b (hp.2 b) _⟩
  | tx body k ih => exact hp.elim

end Autocommit

-- When no statement writes what must not be written, every request is fine.
section AnyRequest

variable (known : σ → Prop) (ok : ω → Prop)
  (hknown : ∀ {s : Store σ ω} {ws : List ω}, R.inv s → (∀ w ∈ ws, ok w) → known (view Stmt s.db ws))
  (hexec : ∀ {γ : Type} (st : Stmt γ) {db : σ} {b : γ} {ws : List ω}, known db →
    Backend.exec st db = .ok (b, ws) → ∀ w ∈ ws, ok w)

include hknown hexec

theorem wpTx_any {Q : List (Seen Stmt) → List ω → α → Store σ ω → Prop}
    (hQ : ∀ seen ws a s, R.inv s → (∀ w ∈ ws, ok w) → Q seen ws a s) (p : Tx Stmt ε α)
    {seen : List (Seen Stmt)} {ws : List ω} (hws : ∀ w ∈ ws, ok w) (s : Store σ ω) :
    R.wpTx me Q p seen ws s := by
  induction p generalizing seen ws s with
  | pure a => exact fun s' hr => hQ seen ws a s' (R.rely_inv hr) hws
  | throw e => trivial
  | stmt st k ih =>
      intro s' hr _ b ws' he
      have hnew := hexec st (hknown (R.rely_inv hr) hws) he
      refine ih b (fun w hw => ?_) s'
      exact (List.mem_append.mp hw).elim (hws w) (hnew w)

theorem wp_any (hcommit : ∀ s ws, R.inv s → (∀ w ∈ ws, ok w) → R.Commits me s ws)
    (p : Prog Stmt ε α) (s : Store σ ω) : R.wp me (fun _ _ => True) p s := by
  induction p generalizing s with
  | pure a => exact fun _ _ => trivial
  | throw e => trivial
  | stmt st k ih =>
      intro s' hr _ b ws he
      have hs' := R.rely_inv hr
      have hdb : known (view Stmt s'.db []) := hknown hs' fun _ hw => absurd hw List.not_mem_nil
      exact ⟨hcommit s' ws hs' (hexec st hdb he), ih b _⟩
  | tx body k ih =>
      refine wpTx_any known ok hknown hexec (fun _ ws b s' hs' hws => ?_) body
        (fun _ hw => absurd hw List.not_mem_nil) s
      exact ⟨hcommit s' ws hs' hws, ih b _⟩

end AnyRequest

end Rules

end ReadCommitted
