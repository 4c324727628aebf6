import SideQuest.Lib.Interleaving

-- Races: runs in which every request remembers what it has read, so that a condition can
-- compare this with the data that the next move of the request meets.

namespace ReadCommitted

-- A thread runs a statement, or commits its writes.
inductive Move (Stmt : Type → Type) (ω : Type) : Type 1 where
  | run {β : Type} (st : Stmt β)
  | commit (ws : List ω)

-- A condition on a move: all that the request has read, latest first, the move and the
-- data that it meets.
def RaceGuard (Stmt : Type → Type) (σ ω : Type) : Type 1 :=
  List (Seen Stmt) → Move Stmt ω → σ → Bool

def RaceGuard.none {Stmt : Type → Type} {σ ω : Type} : RaceGuard Stmt σ ω := fun _ _ _ => true

-- A system, and what the request of each thread has read so far.
structure Recalling (Stmt : Type → Type) (σ ω ε : Type) : Type 1 where
  system : System Stmt σ ω ε
  seen : Nat → List (Seen Stmt)

namespace Recalling

variable {Stmt : Type → Type} {σ ω ℓ ε η : Type} [Backend Stmt σ ω ℓ ε η] [DecidableEq ℓ]

def init (db : σ) : Recalling Stmt σ ω ε := ⟨System.init db, fun _ => []⟩

def store (r : Recalling Stmt σ ω ε) : Store σ ω := r.system.store

def answerOf {β : Type} (st : Stmt β) (db : σ) : List (Seen Stmt) :=
  match Backend.exec st db with
  | .ok (b, _) => [⟨st, b⟩]
  | .error _ => []

omit [DecidableEq ℓ] in
theorem answerOf_ok {β : Type} {st : Stmt β} {db : σ} {b : β} {ws : List ω}
    (h : Backend.exec st db = .ok (b, ws)) : answerOf st db = [⟨st, b⟩] := by
  unfold answerOf
  rw [h]

-- What the next step of thread `i` lets its request read.
def reads (r : Recalling Stmt σ ω ε) (i : Nat) : List (Seen Stmt) :=
  match r.system.threads[i]? with
  | some (.run (.stmt st _)) => answerOf st r.store.db
  | some (.tx _ ws (.stmt st _) _) => answerOf st (view Stmt r.store.db ws)
  | _ => []

def next (r : Recalling Stmt σ ω ε) (i : Nat) : Option (Recalling Stmt σ ω ε) :=
  (r.system.next i).map fun s => ⟨s, Function.update r.seen i (r.reads i ++ r.seen i)⟩

def spawn (r : Recalling Stmt σ ω ε) (p : Prog Stmt ε Unit) : Recalling Stmt σ ω ε :=
  { r with system := r.system.spawn p }

def kill (r : Recalling Stmt σ ω ε) (i : Nat) (e : ε) : Recalling Stmt σ ω ε :=
  { r with system := r.system.kill i e }

def happen (r : Recalling Stmt σ ω ε) (a : η) : Recalling Stmt σ ω ε :=
  { r with system := r.system.happen a }

-- A statement outside transactions commits what it writes.
def commits (g : RaceGuard Stmt σ ω) (seen : List (Seen Stmt)) {β : Type} (st : Stmt β)
    (db : σ) : Bool :=
  match Backend.exec st db with
  | .ok (b, ws) => g (⟨st, b⟩ :: seen) (.commit ws) db
  | .error _ => true

omit [DecidableEq ℓ] in
theorem commits_ok {g : RaceGuard Stmt σ ω} {seen : List (Seen Stmt)} {β : Type} {st : Stmt β}
    {db : σ} {b : β} {ws : List ω} (h : Backend.exec st db = .ok (b, ws)) :
    commits g seen st db = g (⟨st, b⟩ :: seen) (.commit ws) db := by
  unfold commits
  rw [h]

-- Whether the next move of thread `i` satisfies the condition.
def meets (g : RaceGuard Stmt σ ω) (r : Recalling Stmt σ ω ε) (i : Nat) : Bool :=
  match r.system.threads[i]? with
  | some (.run (.stmt st _)) =>
      g (r.seen i) (.run st) r.store.db && commits g (r.seen i) st r.store.db
  | some (.tx _ ws (.stmt st _) _) => g (r.seen i) (.run st) (view Stmt r.store.db ws)
  | some (.tx _ ws (.pure _) _) => g (r.seen i) (.commit ws) r.store.db
  | _ => true

-- The runs in which every request started is one of `requests` and every move satisfies
-- the condition.
inductive Reaches (requests : Prog Stmt ε Unit → Prop) (g : RaceGuard Stmt σ ω)
    (r : Recalling Stmt σ ω ε) : Recalling Stmt σ ω ε → Prop
  | refl : Reaches requests g r r
  | spawn {r' : Recalling Stmt σ ω ε} {p : Prog Stmt ε Unit} :
      Reaches requests g r r' → requests p → Reaches requests g r (r'.spawn p)
  | next {r' r'' : Recalling Stmt σ ω ε} {i : Nat} :
      Reaches requests g r r' → r'.meets g i = true → r'.next i = some r'' →
        Reaches requests g r r''
  | kill {r' : Recalling Stmt σ ω ε} (i : Nat) (e : ε) :
      Reaches requests g r r' → Reaches requests g r (r'.kill i e)
  | happen {r' : Recalling Stmt σ ω ε} (a : η) :
      Reaches requests g r r' → Reaches requests g r (r'.happen a)

def play (g : RaceGuard Stmt σ ω) (r : Recalling Stmt σ ω ε) :
    List (Choice Stmt ε η) → Option (Recalling Stmt σ ω ε)
  | [] => some r
  | .spawn p :: rest => play g (r.spawn p) rest
  | .next i :: rest =>
      if r.meets g i then
        match r.next i with
        | some r' => play g r' rest
        | none => none
      else none
  | .kill i e :: rest => play g (r.kill i e) rest
  | .happen a :: rest => play g (r.happen a) rest

theorem reaches_of_play {requests : Prog Stmt ε Unit → Prop} {g : RaceGuard Stmt σ ω}
    {r r' : Recalling Stmt σ ω ε} {schedule : List (Choice Stmt ε η)}
    (hreq : ∀ p, .spawn p ∈ schedule → requests p) (h : play g r schedule = some r') :
    Reaches requests g r r' := by
  suffices key : ∀ r₁, Reaches requests g r r₁ → play g r₁ schedule = some r' →
      Reaches requests g r r' from key r .refl h
  clear h
  induction schedule with
  | nil =>
      intro r₁ h₁ h
      cases h
      exact h₁
  | cons choice rest ih =>
      intro r₁ h₁ h
      have hrest : ∀ p, .spawn p ∈ rest → requests p := fun p hp =>
        hreq p (List.mem_cons_of_mem _ hp)
      cases choice with
      | spawn p => exact ih hrest _ (h₁.spawn (hreq p List.mem_cons_self)) h
      | next i =>
          simp only [play] at h
          split at h
          · rename_i hg
            split at h
            · rename_i r₂ hn
              exact ih hrest _ (h₁.next hg hn) h
            · cases h
          · cases h
      | kill i e => exact ih hrest _ (h₁.kill i e) h
      | happen a => exact ih hrest _ (h₁.happen a) h

theorem exists_reaches_of_play {β : Type} (requests : Prog Stmt ε Unit → Prop)
    (g : RaceGuard Stmt σ ω) (r : Recalling Stmt σ ω ε) (schedule : List (Choice Stmt ε η))
    (observe : Recalling Stmt σ ω ε → β) (b : β)
    (hps : ∀ p, .spawn p ∈ schedule → requests p)
    (h : (play g r schedule).map observe = some b) :
    ∃ r', Reaches requests g r r' ∧ observe r' = b := by
  obtain ⟨r', hr', hb⟩ := Option.map_eq_some_iff.mp h
  exact ⟨r', reaches_of_play hps hr', hb⟩

theorem exists_reaches_of_play_play {β : Type} (requests : Prog Stmt ε Unit → Prop)
    (g : RaceGuard Stmt σ ω) (r : Recalling Stmt σ ω ε) (before after : List (Choice Stmt ε η))
    (observe : Recalling Stmt σ ω ε → Recalling Stmt σ ω ε → β) (b : β)
    (hps : ∀ p, .spawn p ∈ before ++ after → requests p)
    (h : (play g r before).bind (fun r₁ => (play g r₁ after).map (observe r₁)) = some b) :
    ∃ r₁ r₂, Reaches requests g r r₁ ∧ Reaches requests g r₁ r₂ ∧ observe r₁ r₂ = b := by
  obtain ⟨r₁, hr₁, h⟩ := Option.bind_eq_some_iff.mp h
  obtain ⟨r₂, hr₂, hb⟩ := Option.map_eq_some_iff.mp h
  have hbefore := reaches_of_play (fun p hp => hps p (List.mem_append_left _ hp)) hr₁
  have hafter := reaches_of_play (fun p hp => hps p (List.mem_append_right _ hp)) hr₂
  exact ⟨r₁, r₂, hbefore, hafter, hb⟩

end Recalling

-- Programs that have read enough for every statement that they run (`ok`) and for
-- everything that they commit (`fine`), whatever data the statements find. In the end `Q`
-- holds.
section Informed

variable {Stmt : Type → Type} {σ ω ℓ ε η : Type} [Backend Stmt σ ω ℓ ε η] {α β : Type}

section

variable (ok : List (Seen Stmt) → {β : Type} → Stmt β → Prop)
  (fine : List (Seen Stmt) → List ω → Prop)

def TxInformed {α : Type} (Q : List (Seen Stmt) → List ω → α → Prop) :
    Tx Stmt ε α → List (Seen Stmt) → List ω → Prop
  | .pure a, seen, ws => Q seen ws a
  | .throw _, _, _ => True
  | .stmt st k, seen, ws => ok seen st ∧ ∀ db b ws', Backend.exec st db = .ok (b, ws') →
      TxInformed Q (k b) (⟨st, b⟩ :: seen) (ws ++ ws')

def Informed {α : Type} (Q : List (Seen Stmt) → α → Prop) :
    Prog Stmt ε α → List (Seen Stmt) → Prop
  | .pure a, seen => Q seen a
  | .throw _, _ => True
  | .stmt st k, seen => ok seen st ∧ ∀ db b ws, Backend.exec st db = .ok (b, ws) →
      fine (⟨st, b⟩ :: seen) ws ∧ Informed Q (k b) (⟨st, b⟩ :: seen)
  | .tx body k, seen => TxInformed ok (fun seen ws b => fine seen ws ∧ Informed Q (k b) seen)
      body seen []

end

variable {ok : List (Seen Stmt) → {β : Type} → Stmt β → Prop}
  {fine : List (Seen Stmt) → List ω → Prop} {seen : List (Seen Stmt)} {ws : List ω}

theorem TxInformed.mono {Q Q' : List (Seen Stmt) → List ω → α → Prop}
    (hQ : ∀ seen ws a, Q seen ws a → Q' seen ws a) {p : Tx Stmt ε α}
    (h : TxInformed ok Q p seen ws) : TxInformed ok Q' p seen ws := by
  induction p generalizing seen ws with
  | pure a => exact hQ seen ws a h
  | throw e => trivial
  | stmt st k ih => exact ⟨h.1, fun db b ws' he => ih b (h.2 db b ws' he)⟩

theorem TxInformed.bind {Q : List (Seen Stmt) → List ω → β → Prop} {p : Tx Stmt ε α}
    {f : α → Tx Stmt ε β}
    (h : TxInformed ok (fun seen ws a => TxInformed ok Q (f a) seen ws) p seen ws) :
    TxInformed ok Q (p >>= f) seen ws := by
  induction p generalizing seen ws with
  | pure a => exact h
  | throw e => trivial
  | stmt st k ih => exact ⟨h.1, fun db b ws' he => ih b (h.2 db b ws' he)⟩

theorem Informed.mono {Q Q' : List (Seen Stmt) → α → Prop} (hQ : ∀ seen a, Q seen a → Q' seen a)
    {p : Prog Stmt ε α} (h : Informed ok fine Q p seen) : Informed ok fine Q' p seen := by
  induction p generalizing seen with
  | pure a => exact hQ seen a h
  | throw e => trivial
  | stmt st k ih =>
      exact ⟨h.1, fun db b ws he => ⟨(h.2 db b ws he).1, ih b (h.2 db b ws he).2⟩⟩
  | tx body k ih => exact TxInformed.mono (fun _ _ b hb => ⟨hb.1, ih b hb.2⟩) h

theorem Informed.bind {Q : List (Seen Stmt) → β → Prop} {p : Prog Stmt ε α}
    {f : α → Prog Stmt ε β}
    (h : Informed ok fine (fun seen a => Informed ok fine Q (f a) seen) p seen) :
    Informed ok fine Q (p >>= f) seen := by
  induction p generalizing seen with
  | pure a => exact h
  | throw e => trivial
  | stmt st k ih =>
      exact ⟨h.1, fun db b ws he => ⟨(h.2 db b ws he).1, ih b (h.2 db b ws he).2⟩⟩
  | tx body k ih => exact TxInformed.mono (fun _ _ b hb => ⟨hb.1, ih b hb.2⟩) h

theorem txInformed_any {Q : List (Seen Stmt) → List ω → α → Prop}
    (hok : ∀ {γ : Type} seen (st : Stmt γ), ok seen st) (hQ : ∀ seen ws a, Q seen ws a)
    (p : Tx Stmt ε α) : TxInformed ok Q p seen ws := by
  induction p generalizing seen ws with
  | pure a => exact hQ seen ws a
  | throw e => trivial
  | stmt st k ih => exact ⟨hok seen st, fun _ b _ _ => ih b⟩

theorem informed_any {Q : List (Seen Stmt) → α → Prop}
    (hok : ∀ {γ : Type} seen (st : Stmt γ), ok seen st) (hfine : ∀ seen ws, fine seen ws)
    (hQ : ∀ seen a, Q seen a) (p : Prog Stmt ε α) : Informed ok fine Q p seen := by
  induction p generalizing seen with
  | pure a => exact hQ seen a
  | throw e => trivial
  | stmt st k ih => exact ⟨hok seen st, fun _ b _ _ => ⟨hfine _ _, ih b⟩⟩
  | tx body k ih => exact txInformed_any hok (fun _ _ b => ⟨hfine _ _, ih b⟩) body

-- A statement that only reads.
theorem txInformed_query {Q : List (Seen Stmt) → List ω → β → Prop} {st : Stmt α}
    {answer : σ → α} {f : α → Tx Stmt ε β} (hst : ∀ db, Backend.exec st db = .ok (answer db, []))
    (hok : ok seen st) (h : ∀ a, TxInformed ok Q (f a) (⟨st, a⟩ :: seen) ws) :
    TxInformed ok Q (Tx.call st >>= f) seen ws := by
  refine ⟨hok, fun db b ws' he => ?_⟩
  rw [hst] at he
  cases he
  rw [List.append_nil]
  exact h _

theorem txInformed_call {Q : List (Seen Stmt) → List ω → β → Prop} {st : Stmt α}
    {f : α → Tx Stmt ε β} (hok : ok seen st)
    (h : ∀ db a ws', Backend.exec st db = .ok (a, ws') →
      TxInformed ok Q (f a) (⟨st, a⟩ :: seen) (ws ++ ws')) :
    TxInformed ok Q (Tx.call st >>= f) seen ws := ⟨hok, h⟩

theorem txInformed_expect {Q : List (Seen Stmt) → List ω → β → Prop} {found : Option α} {e : ε}
    {f : α → Tx Stmt ε β} (h : ∀ a, found = some a → TxInformed ok Q (f a) seen ws) :
    TxInformed ok Q (Tx.expect found e >>= f) seen ws := by
  cases found with
  | none => trivial
  | some a => exact h a rfl

theorem txInformed_require {Q : List (Seen Stmt) → List ω → β → Prop} {c : Prop} [Decidable c]
    {e : ε} {f : Unit → Tx Stmt ε β} (h : c → TxInformed ok Q (f ()) seen ws) :
    TxInformed ok Q (Tx.require c e >>= f) seen ws := by
  unfold Tx.require
  split
  · rename_i hc
    exact h hc
  · trivial

theorem informed_query {Q : List (Seen Stmt) → β → Prop} {st : Stmt α} {answer : σ → α}
    {f : α → Prog Stmt ε β} (hst : ∀ db, Backend.exec st db = .ok (answer db, []))
    (hok : ok seen st) (hfine : ∀ seen, fine seen [])
    (h : ∀ a, Informed ok fine Q (f a) (⟨st, a⟩ :: seen)) :
    Informed ok fine Q (Prog.call st >>= f) seen := by
  refine ⟨hok, fun db b ws he => ?_⟩
  rw [hst] at he
  cases he
  exact ⟨hfine _, h _⟩

theorem informed_call {Q : List (Seen Stmt) → β → Prop} {st : Stmt α} {f : α → Prog Stmt ε β}
    (hok : ok seen st)
    (h : ∀ db a ws, Backend.exec st db = .ok (a, ws) →
      fine (⟨st, a⟩ :: seen) ws ∧ Informed ok fine Q (f a) (⟨st, a⟩ :: seen)) :
    Informed ok fine Q (Prog.call st >>= f) seen := ⟨hok, h⟩

theorem informed_transaction {Q : List (Seen Stmt) → β → Prop} {body : Tx Stmt ε α}
    {f : α → Prog Stmt ε β}
    (h : TxInformed ok (fun seen ws a => fine seen ws ∧ Informed ok fine Q (f a) seen) body seen
      []) : Informed ok fine Q (Prog.transaction body >>= f) seen := h

theorem informed_expect {Q : List (Seen Stmt) → β → Prop} {found : Option α} {e : ε}
    {f : α → Prog Stmt ε β} (h : ∀ a, found = some a → Informed ok fine Q (f a) seen) :
    Informed ok fine Q (Prog.expect found e >>= f) seen := by
  cases found with
  | none => trivial
  | some a => exact h a rfl

theorem informed_require {Q : List (Seen Stmt) → β → Prop} {c : Prop} [Decidable c] {e : ε}
    {f : Unit → Prog Stmt ε β} (h : c → Informed ok fine Q (f ()) seen) :
    Informed ok fine Q (Prog.require c e >>= f) seen := by
  unfold Prog.require
  split
  · rename_i hc
    exact h hc
  · trivial

theorem informed_void {p : Prog Stmt ε α} (h : Informed ok fine (fun _ _ => True) p seen) :
    Informed ok fine (fun _ _ => True) p.void seen :=
  Informed.bind (h.mono fun _ _ _ => trivial)

end Informed

-- An invariant of the committed store, a transitive bound on what a commit changes, what
-- every single commit is like, and the condition on the races.
structure RaceContract (Stmt : Type → Type) (σ ω : Type) where
  inv : Store σ ω → Prop
  guar : Store σ ω → Store σ ω → Prop
  commit : σ → List ω → Prop
  guard : RaceGuard Stmt σ ω
  guar_refl : ∀ s, guar s s
  guar_trans : ∀ {s s' s''}, guar s s' → guar s' s'' → guar s s''
  commit_nil : ∀ db, commit db []

namespace RaceContract

-- A contract that bounds no change and no commit.
def ofInv {Stmt : Type → Type} {σ ω : Type} (inv : Store σ ω → Prop)
    (guard : RaceGuard Stmt σ ω) : RaceContract Stmt σ ω where
  inv := inv
  guar _ _ := True
  commit _ _ := True
  guard := guard
  guar_refl _ := trivial
  guar_trans _ _ := trivial
  commit_nil _ := trivial

variable {Stmt : Type → Type} {σ ω ℓ ε η : Type} [Backend Stmt σ ω ℓ ε η] [LawfulBackend Stmt]

-- The contract without its condition on the races, and with one on single statements.
def rulesUnder (C : RaceContract Stmt σ ω) (g : Guard Stmt σ) : Rules Stmt :=
  Contract.rules
    { inv := C.inv, guar := C.guar, guard := g, guar_refl := C.guar_refl,
      guar_trans := C.guar_trans }

abbrev rules (C : RaceContract Stmt σ ω) : Rules Stmt := C.rulesUnder Guard.none

variable (C : RaceContract Stmt σ ω) (me : Nat)

def Commits (s : Store σ ω) (ws : List ω) : Prop := C.rules.Commits me s ws ∧ C.commit s.db ws

-- The weakest precondition of a transaction's body, which goes on from what the request
-- has read before.
def wpTx {α : Type} (Q : List (Seen Stmt) → List ω → α → Store σ ω → Prop) :
    Tx Stmt ε α → List (Seen Stmt) → List ω → Store σ ω → Prop
  | .pure a, seen, ws, s => ∀ s', C.rules.rely me (locksOf Stmt ws) s s' → Q seen ws a s'
  | .throw _, _, _, _ => True
  | .stmt st k, seen, ws, s =>
      ∀ s', C.rules.rely me (locksOf Stmt ws) s s' →
        C.guard seen (.run st) (view Stmt s'.db ws) = true →
          ∀ b ws', Backend.exec st (view Stmt s'.db ws) = .ok (b, ws') →
            wpTx Q (k b) (⟨st, b⟩ :: seen) (ws ++ ws') s'

def wp {α : Type} (Q : List (Seen Stmt) → α → Store σ ω → Prop) :
    Prog Stmt ε α → List (Seen Stmt) → Store σ ω → Prop
  | .pure a, seen, s => ∀ s', C.rules.rely me [] s s' → Q seen a s'
  | .throw _, _, _ => True
  | .stmt st k, seen, s =>
      ∀ s', C.rules.rely me [] s s' → C.guard seen (.run st) s'.db = true →
        ∀ b ws, Backend.exec st s'.db = .ok (b, ws) →
          C.guard (⟨st, b⟩ :: seen) (.commit ws) s'.db = true →
            C.Commits me s' ws ∧ wp Q (k b) (⟨st, b⟩ :: seen) (s'.commit Stmt me ws)
  | .tx body k, seen, s =>
      C.wpTx me (fun seen ws b s' => C.guard seen (.commit ws) s'.db = true →
        C.Commits me s' ws ∧ wp Q (k b) seen (s'.commit Stmt me ws)) body seen [] s

variable {C me} {α β : Type}

theorem commits_nil {s : Store σ ω} (h : C.inv s) : C.Commits me s [] :=
  ⟨Rules.commits_nil h, C.commit_nil s.db⟩

theorem wpTx_weaken {Q : List (Seen Stmt) → List ω → α → Store σ ω → Prop} {p : Tx Stmt ε α}
    {seen : List (Seen Stmt)} {ws : List ω} {s s' : Store σ ω} (h : C.wpTx me Q p seen ws s)
    (hr : C.rules.rely me (locksOf Stmt ws) s s') : C.wpTx me Q p seen ws s' := by
  cases p with
  | pure a => exact fun s'' hr' => h s'' (C.rules.rely_trans hr hr')
  | throw e => trivial
  | stmt st k => exact fun s'' hr' => h s'' (C.rules.rely_trans hr hr')

theorem wp_weaken {Q : List (Seen Stmt) → α → Store σ ω → Prop} {p : Prog Stmt ε α}
    {seen : List (Seen Stmt)} {s s' : Store σ ω} (h : C.wp me Q p seen s)
    (hr : C.rules.rely me [] s s') : C.wp me Q p seen s' := by
  cases p with
  | pure a => exact fun s'' hr' => h s'' (C.rules.rely_trans hr hr')
  | throw e => trivial
  | stmt st k => exact fun s'' hr' => h s'' (C.rules.rely_trans hr hr')
  | tx body k => exact wpTx_weaken h hr

-- It is enough to look at the stores the others can lead to.
theorem wpTx_of_rely {Q : List (Seen Stmt) → List ω → α → Store σ ω → Prop} {p : Tx Stmt ε α}
    {seen : List (Seen Stmt)} {ws : List ω} {s : Store σ ω}
    (h : ∀ s', C.rules.rely me (locksOf Stmt ws) s s' → C.wpTx me Q p seen ws s') :
    C.wpTx me Q p seen ws s := by
  cases p with
  | pure a => exact fun s' hr => h s' hr s' (C.rules.rely_refl (C.rules.rely_inv hr))
  | throw e => trivial
  | stmt st k => exact fun s' hr => h s' hr s' (C.rules.rely_refl (C.rules.rely_inv hr))

theorem wp_of_rely {Q : List (Seen Stmt) → α → Store σ ω → Prop} {p : Prog Stmt ε α}
    {seen : List (Seen Stmt)} {s : Store σ ω}
    (h : ∀ s', C.rules.rely me [] s s' → C.wp me Q p seen s') : C.wp me Q p seen s := by
  cases p with
  | pure a => exact fun s' hr => h s' hr s' (C.rules.rely_refl (C.rules.rely_inv hr))
  | throw e => trivial
  | stmt st k => exact fun s' hr => h s' hr s' (C.rules.rely_refl (C.rules.rely_inv hr))
  | tx body k => exact wpTx_of_rely h

theorem wpTx_mono {Q Q' : List (Seen Stmt) → List ω → α → Store σ ω → Prop} {p : Tx Stmt ε α}
    {seen : List (Seen Stmt)} {ws : List ω} {s : Store σ ω}
    (hQ : ∀ seen ws a s, Q seen ws a s → Q' seen ws a s) (h : C.wpTx me Q p seen ws s) :
    C.wpTx me Q' p seen ws s := by
  induction p generalizing seen ws s with
  | pure a => exact fun s' hr => hQ _ _ _ _ (h s' hr)
  | throw e => trivial
  | stmt st k ih => exact fun s' hr hg b ws' he => ih b (h s' hr hg b ws' he)

theorem wpTx_bind {Q : List (Seen Stmt) → List ω → β → Store σ ω → Prop} {p : Tx Stmt ε α}
    {f : α → Tx Stmt ε β} {seen : List (Seen Stmt)} {ws : List ω} {s : Store σ ω}
    (h : C.wpTx me (fun seen' ws' a s' => C.wpTx me Q (f a) seen' ws' s') p seen ws s) :
    C.wpTx me Q (p >>= f) seen ws s := by
  induction p generalizing seen ws s with
  | pure a => exact wpTx_of_rely h
  | throw e => trivial
  | stmt st k ih => exact fun s' hr hg b ws' he => ih b (h s' hr hg b ws' he)

theorem wp_bind {Q : List (Seen Stmt) → β → Store σ ω → Prop} {p : Prog Stmt ε α}
    {f : α → Prog Stmt ε β} {seen : List (Seen Stmt)} {s : Store σ ω}
    (h : C.wp me (fun seen' a s' => C.wp me Q (f a) seen' s') p seen s) :
    C.wp me Q (p >>= f) seen s := by
  induction p generalizing seen s with
  | pure a => exact wp_of_rely h
  | throw e => trivial
  | stmt st k ih =>
      exact fun s' hr hg b ws he hc =>
        ⟨(h s' hr hg b ws he hc).1, ih b (h s' hr hg b ws he hc).2⟩
  | tx body k ih => exact wpTx_mono (fun _ ws b s' hc hg => ⟨(hc hg).1, ih b (hc hg).2⟩) h

theorem wp_mono {Q Q' : List (Seen Stmt) → α → Store σ ω → Prop} {p : Prog Stmt ε α}
    {seen : List (Seen Stmt)} {s : Store σ ω} (hQ : ∀ seen a s, Q seen a s → Q' seen a s)
    (h : C.wp me Q p seen s) : C.wp me Q' p seen s := by
  induction p generalizing seen s with
  | pure a => exact fun s' hr => hQ seen a s' (h s' hr)
  | throw e => trivial
  | stmt st k ih =>
      exact fun s' hr hg b ws he hc =>
        ⟨(h s' hr hg b ws he hc).1, ih b (h s' hr hg b ws he hc).2⟩
  | tx body k ih => exact wpTx_mono (fun _ ws b s' hc hg => ⟨(hc hg).1, ih b (hc hg).2⟩) h

theorem wp_void {p : Prog Stmt ε α} {seen : List (Seen Stmt)} {s : Store σ ω}
    (h : C.wp me (fun _ _ _ => True) p seen s) : C.wp me (fun _ _ _ => True) p.void seen s :=
  wp_bind (wp_mono (fun _ _ _ _ _ _ => trivial) h)

-- A request that keeps its promises under a condition on single statements keeps them
-- here too, if it has read enough to meet that condition unless it loses a race.
section Informed

variable {ok : List (Seen Stmt) → {β : Type} → Stmt β → Prop}
  {fine : List (Seen Stmt) → List ω → Prop} {g : Guard Stmt σ}
  (hguard : ∀ {γ : Type} (seen txSeen : List (Seen Stmt)) (st : Stmt γ) (db : σ), ok seen st →
    C.guard seen (.run st) db = true → g txSeen st db = true)

include hguard

theorem wpTx_of_informed {Q : List ω → α → Store σ ω → Prop}
    {Q' : List (Seen Stmt) → List ω → α → Store σ ω → Prop}
    {later : List (Seen Stmt) → List ω → α → Prop} {p : Tx Stmt ε α}
    {seen seen' : List (Seen Stmt)} {ws : List ω} {s : Store σ ω}
    (hp : TxInformed ok later p seen' ws)
    (h : (C.rulesUnder g).wpTx me (fun _ => Q) p seen ws s)
    (hQ : ∀ seen' ws a s', later seen' ws a → Q ws a s' → Q' seen' ws a s') :
    C.wpTx me Q' p seen' ws s := by
  induction p generalizing seen seen' ws s with
  | pure a => exact fun s' hr => hQ _ _ _ _ hp (h s' hr)
  | throw e => trivial
  | stmt st k ih =>
      intro s' hr hg b ws' he
      exact ih b (hp.2 _ b ws' he) (h s' hr (hguard _ _ st _ hp.1 hg) b ws' he)

theorem wp_of_informed (hcommit : ∀ {seen : List (Seen Stmt)} {db : σ} {ws : List ω},
      fine seen ws → C.guard seen (.commit ws) db = true → C.commit db ws)
    {Q : α → Store σ ω → Prop} {later : List (Seen Stmt) → α → Prop} {p : Prog Stmt ε α}
    {seen : List (Seen Stmt)} {s : Store σ ω} (hp : Informed ok fine later p seen)
    (h : (C.rulesUnder g).wp me Q p s) : C.wp me (fun _ => Q) p seen s := by
  induction p generalizing seen s with
  | pure a => exact h
  | throw e => trivial
  | stmt st k ih =>
      intro s' hr hg b ws he hgc
      obtain ⟨hc, hk⟩ := h s' hr (hguard _ _ st _ hp.1 hg) b ws he
      obtain ⟨hfine, hnext⟩ := hp.2 _ b ws he
      exact ⟨⟨hc, hcommit hfine hgc⟩, ih b hnext hk⟩
  | tx body k ih =>
      refine wpTx_of_informed hguard hp h fun seen' ws b s' hlater hc hgc => ?_
      exact ⟨⟨hc.1, hcommit hlater.1 hgc⟩, ih b hlater.2 hc.2⟩

end Informed

-- A request that keeps its promises in every race.
theorem wp_of_rules (hcommit : ∀ db ws, C.commit db ws) {Q : α → Store σ ω → Prop}
    {p : Prog Stmt ε α} {seen : List (Seen Stmt)} {s : Store σ ω} (h : C.rules.wp me Q p s) :
    C.wp me (fun _ => Q) p seen s := by
  have hinformed : Informed (fun _ _ _ => True) (fun _ _ => True) (fun _ _ => True) p seen :=
    informed_any (fun _ _ => trivial) (fun _ _ => trivial) (fun _ _ => trivial) p
  exact wp_of_informed (fun _ _ _ _ _ _ => rfl) (fun _ _ => hcommit _ _) hinformed h

section Statements

variable {γ : Type} {Q : List (Seen Stmt) → List ω → β → Store σ ω → Prop}
  {P : List (Seen Stmt) → β → Store σ ω → Prop} {seen : List (Seen Stmt)} {ws : List ω}
  {s : Store σ ω}

theorem wpTx_query {st : Stmt α} {answer : σ → α} {f : α → Tx Stmt ε β}
    (hst : ∀ db, Backend.exec st db = .ok (answer db, []))
    (h : ∀ s', C.rules.rely me (locksOf Stmt ws) s s' →
      C.wpTx me Q (f (answer (view Stmt s'.db ws)))
        (⟨st, answer (view Stmt s'.db ws)⟩ :: seen) ws s') :
    C.wpTx me Q (Tx.call st >>= f) seen ws s := by
  intro s' hr _ b ws' he
  rw [hst] at he
  cases he
  rw [List.append_nil]
  exact h s' hr

theorem wpTx_call {st : Stmt α} {f : α → Tx Stmt ε β}
    (h : ∀ s', C.rules.rely me (locksOf Stmt ws) s s' →
      C.guard seen (.run st) (view Stmt s'.db ws) = true →
        ∀ a ws', Backend.exec st (view Stmt s'.db ws) = .ok (a, ws') →
          C.wpTx me Q (f a) (⟨st, a⟩ :: seen) (ws ++ ws') s') :
    C.wpTx me Q (Tx.call st >>= f) seen ws s := h

theorem wpTx_expect {found : Option α} {e : ε} {f : α → Tx Stmt ε β}
    (h : ∀ a, found = some a → C.wpTx me Q (f a) seen ws s) :
    C.wpTx me Q (Tx.expect found e >>= f) seen ws s := by
  cases found with
  | none => trivial
  | some a => exact h a rfl

theorem wpTx_require {c : Prop} [Decidable c] {e : ε} {f : Unit → Tx Stmt ε β}
    (h : c → C.wpTx me Q (f ()) seen ws s) :
    C.wpTx me Q (Tx.require c e >>= f) seen ws s := by
  unfold Tx.require
  split
  · rename_i hc
    exact h hc
  · trivial

theorem wp_query {st : Stmt α} {answer : σ → α} {f : α → Prog Stmt ε β}
    (hst : ∀ db, Backend.exec st db = .ok (answer db, []))
    (h : ∀ s', C.rules.rely me [] s s' →
      C.wp me P (f (answer s'.db)) (⟨st, answer s'.db⟩ :: seen) s') :
    C.wp me P (Prog.call st >>= f) seen s := by
  intro s' hr _ b ws' he _
  rw [hst] at he
  cases he
  exact ⟨commits_nil (C.rules.rely_inv hr), h s' hr⟩

theorem wp_call {st : Stmt α} {f : α → Prog Stmt ε β}
    (h : ∀ s', C.rules.rely me [] s s' → C.guard seen (.run st) s'.db = true →
      ∀ a ws, Backend.exec st s'.db = .ok (a, ws) →
        C.guard (⟨st, a⟩ :: seen) (.commit ws) s'.db = true →
          C.Commits me s' ws ∧ C.wp me P (f a) (⟨st, a⟩ :: seen) (s'.commit Stmt me ws)) :
    C.wp me P (Prog.call st >>= f) seen s := h

theorem wp_transaction {body : Tx Stmt ε α} {f : α → Prog Stmt ε β}
    (h : C.wpTx me (fun seen ws a s' => C.guard seen (.commit ws) s'.db = true →
      C.Commits me s' ws ∧ C.wp me P (f a) seen (s'.commit Stmt me ws)) body seen [] s) :
    C.wp me P (Prog.transaction body >>= f) seen s := h

theorem wp_expect {found : Option α} {e : ε} {f : α → Prog Stmt ε β}
    (h : ∀ a, found = some a → C.wp me P (f a) seen s) :
    C.wp me P (Prog.expect found e >>= f) seen s := by
  cases found with
  | none => trivial
  | some a => exact h a rfl

theorem wp_require {c : Prop} [Decidable c] {e : ε} {f : Unit → Prog Stmt ε β}
    (h : c → C.wp me P (f ()) seen s) : C.wp me P (Prog.require c e >>= f) seen s := by
  unfold Prog.require
  split
  · rename_i hc
    exact h hc
  · trivial

end Statements

end RaceContract

variable {Stmt : Type → Type} {σ ω ℓ ε η : Type} [Backend Stmt σ ω ℓ ε η] [LawfulBackend Stmt]

-- What a thread still has to do is fine after all that its request has read.
def Thread.RaceSafe (C : RaceContract Stmt σ ω) (me : Nat) (seen : List (Seen Stmt))
    (s : Store σ ω) : Thread Stmt ω ε → Prop
  | .run p => C.wp me (fun _ _ _ => True) p seen s
  | .tx _ ws body k =>
      C.wpTx me (fun seen ws b s' => C.guard seen (.commit ws) s'.db = true →
        C.Commits me s' ws ∧
          C.wp me (fun _ _ _ => True) (k b) seen (s'.commit Stmt me ws)) body seen ws s

theorem Thread.RaceSafe.weaken {C : RaceContract Stmt σ ω} {me : Nat} {seen : List (Seen Stmt)}
    {s s' : Store σ ω} {t : Thread Stmt ω ε} (h : t.RaceSafe C me seen s)
    (hr : C.rules.rely me t.held s s') : t.RaceSafe C me seen s' := by
  cases t with
  | run p => exact RaceContract.wp_weaken h hr
  | tx _ ws body k => exact RaceContract.wpTx_weaken h hr

namespace Recalling

-- A request that has not started has read nothing.
structure Safe (C : RaceContract Stmt σ ω) (r : Recalling Stmt σ ω ε) : Prop where
  sound : r.system.Sound C.rules fun i st t => t.RaceSafe C i (r.seen i) st
  fresh : ∀ i, r.system.threads.length ≤ i → r.seen i = []

variable {C : RaceContract Stmt σ ω} {r : Recalling Stmt σ ω ε}

theorem Safe.inv (h : r.Safe C) : C.inv r.store := h.sound.inv

theorem init_safe {db : σ} (h : C.inv ⟨db, []⟩) : (init db : Recalling Stmt σ ω ε).Safe C where
  sound.inv := h
  sound.threads i t ht := by simp [init, System.init] at ht
  sound.exclusive i j t t' _ ht := by simp [init, System.init] at ht
  fresh _ _ := rfl

theorem Safe.spawn (h : r.Safe C) {p : Prog Stmt ε Unit}
    (hp : C.wp r.system.threads.length (fun _ _ _ => True) p [] r.store) : (r.spawn p).Safe C where
  sound := h.sound.spawn (by rw [h.fresh _ (Nat.le_refl _)]; exact hp)
  fresh i hi := h.fresh i (by
    have hlen : (r.system.threads ++ [Thread.run p]).length ≤ i := hi
    rw [List.length_append] at hlen
    omega)

-- Thread `i` has read `news` and goes on as `t`.
theorem Safe.replace (h : r.Safe C) {i : Nat} {t : Thread Stmt ω ε} {st : Store σ ω}
    {news : List (Seen Stmt)} (hi : i < r.system.threads.length) (hinv : C.inv st)
    (ht : t.RaceSafe C i (news ++ r.seen i) st)
    (hothers : ∀ j tj, i ≠ j → r.system.threads[j]? = some tj →
      C.rules.rely j tj.held r.store st)
    (hlocks : ∀ j tj, i ≠ j → r.system.threads[j]? = some tj → ∀ l ∈ t.held, l ∉ tj.held) :
    Safe C ⟨{ r.system.set i t with store := st },
      Function.update r.seen i (news ++ r.seen i)⟩ where
  sound := by
    refine h.sound.replace hinv ?_ ?_ hlocks
    · dsimp only
      rw [Function.update_self]
      exact ht
    · intro j tj hij hj
      dsimp only
      rw [Function.update_of_ne (Ne.symm hij)]
      exact (h.sound.threads j tj hj).weaken (hothers j tj hij hj)
  fresh j hj := by
    have hj' : r.system.threads.length ≤ j := by
      have hlen : (r.system.threads.set i t).length ≤ j := hj
      rwa [List.length_set] at hlen
    have hji : j ≠ i := by omega
    dsimp only
    rw [Function.update_of_ne hji]
    exact h.fresh j hj'

theorem Safe.stay (h : r.Safe C) {i : Nat} {t : Thread Stmt ω ε} {news : List (Seen Stmt)}
    (hi : i < r.system.threads.length) (ht : t.RaceSafe C i (news ++ r.seen i) r.store)
    (hlocks : ∀ j tj, i ≠ j → r.system.threads[j]? = some tj → ∀ l ∈ t.held, l ∉ tj.held) :
    Safe C ⟨r.system.set i t, Function.update r.seen i (news ++ r.seen i)⟩ :=
  h.replace hi h.inv ht (fun _ _ _ _ => C.rules.rely_refl h.inv) hlocks

theorem Safe.commit (h : r.Safe C) {i : Nat} {t : Thread Stmt ω ε} {news : List (Seen Stmt)}
    {ws : List ω} (hi : i < r.system.threads.length) (hc : C.Commits i r.store ws)
    (ht : t.RaceSafe C i (news ++ r.seen i) (r.store.commit Stmt i ws))
    (hfree : ∀ j tj, i ≠ j → r.system.threads[j]? = some tj →
      ∀ l ∈ tj.held, l ∉ locksOf Stmt ws)
    (hheld : t.held = ([] : List ℓ)) :
    Safe C ⟨{ r.system.set i t with store := r.store.commit Stmt i ws },
      Function.update r.seen i (news ++ r.seen i)⟩ := by
  refine h.replace hi hc.1.1 ht ?_ ?_
  · exact fun j tj hij hj => rely_commit hij hc.1 (hfree j tj hij hj)
  · intro j tj _ _ l hl
    rw [hheld] at hl
    cases hl

theorem Safe.kill (h : r.Safe C) (i : Nat) (e : ε) : (r.kill i e).Safe C where
  sound := h.sound.replace h.inv trivial (fun j tj _ hj => h.sound.threads j tj hj)
    fun _ _ _ _ _ hl => absurd hl List.not_mem_nil
  fresh j hj := h.fresh j (by
    have hlen : (r.system.threads.set i (Thread.run (.throw e))).length ≤ j := hj
    rwa [List.length_set] at hlen)

theorem Safe.happen (h : r.Safe C) (a : η)
    (ha : C.inv (r.happen a).store ∧ C.guar r.store (r.happen a).store) :
    (r.happen a).Safe C where
  sound.inv := ha.1
  sound.threads i t ht := (h.sound.threads i t ht).weaken
    ⟨ha.1, ha.2, fun l _ => LawfulBackend.same_happen l _ a, rfl⟩
  sound.exclusive := h.sound.exclusive
  fresh := h.fresh

-- What one step does to the store.
def Steps (C : RaceContract Stmt σ ω) (s s' : Store σ ω) : Prop :=
  C.guar s s' ∧ (s' = s ∨ ∃ i ws, s' = s.commit Stmt i ws ∧ C.commit s.db ws)

omit [LawfulBackend Stmt] in
theorem steps_refl (s : Store σ ω) : Steps C s s := ⟨C.guar_refl s, Or.inl rfl⟩

theorem steps_commit {s : Store σ ω} {i : Nat} {ws : List ω} (h : C.Commits i s ws) :
    Steps C s (s.commit Stmt i ws) := ⟨h.1.2, Or.inr ⟨i, ws, rfl, h.2⟩⟩

variable [DecidableEq ℓ]

-- One step of one thread, by the kind of its next statement.
theorem Safe.next (h : r.Safe C) {i : Nat} {r' : Recalling Stmt σ ω ε}
    (hg : r.meets C.guard i = true) (hn : r.next i = some r') :
    r'.Safe C ∧ Steps C r.store r'.store := by
  obtain ⟨s, hs, rfl⟩ := Option.map_eq_some_iff.mp hn
  have hstay := steps_refl (C := C) r.store
  have hrefl : ∀ locks, C.rules.rely i locks r.store r.store := fun _ => C.rules.rely_refl h.inv
  unfold System.next at hs
  unfold meets at hg
  unfold reads
  have hlt {t : Thread Stmt ω ε} (ht : r.system.threads[i]? = some t) :
      i < r.system.threads.length := (List.getElem?_eq_some_iff.mp ht).1
  have hnone (j : Nat) (tj : Thread Stmt ω ε) : i ≠ j → r.system.threads[j]? = some tj →
      ∀ l ∈ ([] : List ℓ), l ∉ tj.held := fun _ _ _ hl => absurd hl List.not_mem_nil
  split at hs
  · cases hs
  · cases hs
  · cases hs
  · rename_i st k hi
    rw [hi] at hg ⊢
    have hsafe := h.sound.threads i _ hi
    split at hs
    · cases hs
      exact ⟨h.stay (hlt hi) trivial hnone, hstay⟩
    · rename_i b ws he
      split at hs
      · rename_i hfree
        cases hs
        obtain ⟨hrun, hcommit⟩ := Bool.and_eq_true_iff.mp hg
        have hfound : Backend.exec st r.store.db = .ok (b, ws) := he
        rw [commits_ok hfound] at hcommit
        obtain ⟨hc, hk⟩ := hsafe r.store (hrefl _) hrun b ws he hcommit
        refine ⟨h.commit (hlt hi) hc ?_ ?_ rfl, steps_commit hc⟩
        · have hread : answerOf st r.store.db = [⟨st, b⟩] := answerOf_ok he
          dsimp only
          rw [hread]
          exact hk
        · exact fun j tj hij hj l hl hl' => System.free_iff.mp hfree j tj hij hj l hl' hl
      · cases hs
  · rename_i body k hi
    cases hs
    rw [hi]
    have hsafe := h.sound.threads i _ hi
    exact ⟨h.stay (t := .tx [] [] body k) (hlt hi) hsafe hnone, hstay⟩
  · rename_i seen ws b k hi
    cases hs
    rw [hi] at hg ⊢
    obtain ⟨hc, hk⟩ := h.sound.threads i _ hi r.store (hrefl _) hg
    refine ⟨h.commit (hlt hi) hc hk ?_ rfl, steps_commit hc⟩
    exact fun j tj hij hj l hl hl' => h.sound.exclusive i j _ tj hij hi hj l hl' hl
  · rename_i hi
    cases hs
    rw [hi]
    exact ⟨h.stay (hlt hi) trivial hnone, hstay⟩
  · rename_i seen ws _ st kb k hi
    rw [hi] at hg ⊢
    have hsafe := h.sound.threads i _ hi
    split at hs
    · cases hs
      exact ⟨h.stay (hlt hi) trivial hnone, hstay⟩
    · rename_i b ws' he
      split at hs
      · rename_i hfree
        cases hs
        refine ⟨h.stay (hlt hi) ?_ ?_, hstay⟩
        · have hread : answerOf st (view Stmt r.store.db ws) = [⟨st, b⟩] := answerOf_ok he
          dsimp only
          rw [hread]
          exact hsafe r.store (hrefl _) hg b ws' he
        · intro j tj hij hj l hl
          have hmem : l ∈ locksOf Stmt ws ++ locksOf Stmt ws' := by
            rw [← locksOf_append]
            exact hl
          rcases List.mem_append.mp hmem with hl | hl
          · exact h.sound.exclusive i j _ tj hij hi hj l hl
          · exact System.free_iff.mp hfree j tj hij hj l hl
      · cases hs

-- The run rule: requests that each keep the contract keep it together.
theorem Reaches.safe {requests : Prog Stmt ε Unit → Prop}
    (hreq : ∀ p, requests p → ∀ me st, C.inv st → C.wp me (fun _ _ _ => True) p [] st)
    (hhappen : ∀ (a : η) st, C.inv st → C.inv { st with db := Backend.happen Stmt a st.db } ∧
      C.guar st { st with db := Backend.happen Stmt a st.db })
    {r' : Recalling Stmt σ ω ε} (hr : r.Safe C) (h : Reaches requests C.guard r r') :
    r'.Safe C ∧ C.guar r.store r'.store := by
  induction h with
  | refl => exact ⟨hr, C.guar_refl _⟩
  | spawn _ hp ih => exact ⟨ih.1.spawn (hreq _ hp _ _ ih.1.inv), ih.2⟩
  | next _ hg hn ih =>
      obtain ⟨hsafe, hsteps⟩ := ih.1.next hg hn
      exact ⟨hsafe, C.guar_trans ih.2 hsteps.1⟩
  | kill i e _ ih => exact ⟨ih.1.kill i e, ih.2⟩
  | happen a _ ih =>
      have ha := hhappen a _ ih.1.inv
      exact ⟨ih.1.happen a ha, C.guar_trans ih.2 ha.2⟩

end Recalling

end ReadCommitted
