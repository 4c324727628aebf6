import Mathlib.Init

-- Programs that talk to a database. `Stmt β` is a statement that answers with a `β`
-- and `ε` the type of the errors that end a request.

-- What runs inside one transaction. A `throw` rolls the transaction back.
inductive Tx (Stmt : Type → Type) (ε α : Type) : Type 1 where
  | pure (a : α)
  | throw (e : ε)
  | stmt {β : Type} (s : Stmt β) (k : β → Tx Stmt ε α)

-- What a request runs: autocommitted statements and transactions, in order.
-- A transaction's body is a `Tx`, so transactions do not nest.
inductive Prog (Stmt : Type → Type) (ε α : Type) : Type 1 where
  | pure (a : α)
  | throw (e : ε)
  | stmt {β : Type} (s : Stmt β) (k : β → Prog Stmt ε α)
  | tx {β : Type} (body : Tx Stmt ε β) (k : β → Prog Stmt ε α)

variable {Stmt : Type → Type} {ε α β γ : Type}

namespace Tx

def bind : Tx Stmt ε α → (α → Tx Stmt ε β) → Tx Stmt ε β
  | .pure a, f => f a
  | .throw e, _ => .throw e
  | .stmt s k, f => .stmt s fun b => (k b).bind f

instance : Monad (Tx Stmt ε) where
  pure := .pure
  bind := bind

-- One statement of the transaction's client.
def call (s : Stmt α) : Tx Stmt ε α := .stmt s .pure

-- `if (!found) throw e`
def expect (found : Option α) (e : ε) : Tx Stmt ε α :=
  match found with
  | some a => .pure a
  | none => .throw e

-- `if (!c) throw e`
def require (c : Prop) [Decidable c] (e : ε) : Tx Stmt ε Unit :=
  if c then .pure () else .throw e

@[simp] theorem pure_eq (a : α) : (Pure.pure a : Tx Stmt ε α) = .pure a := rfl

@[simp] theorem pure_bind (a : α) (f : α → Tx Stmt ε β) : (Tx.pure a >>= f) = f a := rfl

@[simp] theorem throw_bind (e : ε) (f : α → Tx Stmt ε β) : (Tx.throw e >>= f) = .throw e := rfl

@[simp] theorem stmt_bind (s : Stmt γ) (k : γ → Tx Stmt ε α) (f : α → Tx Stmt ε β) :
    (Tx.stmt s k >>= f) = .stmt s fun c => k c >>= f := rfl

@[simp] theorem call_bind (s : Stmt α) (f : α → Tx Stmt ε β) :
    (Tx.call s >>= f) = .stmt s f := rfl

end Tx

namespace Prog

def bind : Prog Stmt ε α → (α → Prog Stmt ε β) → Prog Stmt ε β
  | .pure a, f => f a
  | .throw e, _ => .throw e
  | .stmt s k, f => .stmt s fun b => (k b).bind f
  | .tx body k, f => .tx body fun b => (k b).bind f

instance : Monad (Prog Stmt ε) where
  pure := .pure
  bind := bind

-- One autocommitted statement.
def call (s : Stmt α) : Prog Stmt ε α := .stmt s .pure

def expect (found : Option α) (e : ε) : Prog Stmt ε α :=
  match found with
  | some a => .pure a
  | none => .throw e

def require (c : Prop) [Decidable c] (e : ε) : Prog Stmt ε Unit :=
  if c then .pure () else .throw e

-- `if (c) { … }`
def when (c : Prop) [Decidable c] (p : Prog Stmt ε Unit) : Prog Stmt ε Unit :=
  if c then p else .pure ()

-- `runInTransaction`: commit when the body returns, roll back when it throws.
def transaction (body : Tx Stmt ε α) : Prog Stmt ε α := .tx body .pure

@[simp] theorem pure_eq (a : α) : (Pure.pure a : Prog Stmt ε α) = .pure a := rfl

@[simp] theorem pure_bind (a : α) (f : α → Prog Stmt ε β) : (Prog.pure a >>= f) = f a := rfl

@[simp] theorem throw_bind (e : ε) (f : α → Prog Stmt ε β) : (Prog.throw e >>= f) = .throw e := rfl

@[simp] theorem stmt_bind (s : Stmt γ) (k : γ → Prog Stmt ε α) (f : α → Prog Stmt ε β) :
    (Prog.stmt s k >>= f) = .stmt s fun c => k c >>= f := rfl

@[simp] theorem call_bind (s : Stmt α) (f : α → Prog Stmt ε β) :
    (Prog.call s >>= f) = .stmt s f := rfl

theorem bind_assoc (p : Prog Stmt ε α) (f : α → Prog Stmt ε β) (g : β → Prog Stmt ε γ) :
    (p >>= f >>= g) = (p >>= fun a => f a >>= g) := by
  induction p with
  | pure a => rfl
  | throw e => rfl
  | stmt s k ih => exact congrArg (Prog.stmt s) (funext ih)
  | tx body k ih => exact congrArg (Prog.tx body) (funext ih)

-- A request whose answer nobody reads.
def void (p : Prog Stmt ε α) : Prog Stmt ε Unit := p >>= fun _ => .pure ()

end Prog
