import SideQuest.Lib.Alone
import Mathlib.Data.List.Perm.Basic

-- What requests leave open, and the listeners that look after it later.

open ReadCommitted

-- Programs all of whose statements are of one kind.
section Uses

variable {Stmt : Type → Type} {σ ω ℓ ε η α β : Type} [Backend Stmt σ ω ℓ ε η]

def Tx.Uses (ok : {β : Type} → Stmt β → Prop) : Tx Stmt ε α → Prop
  | .pure _ => True
  | .throw _ => True
  | .stmt st k => ok st ∧ ∀ b, Uses ok (k b)

def Prog.Uses (ok : {β : Type} → Stmt β → Prop) : Prog Stmt ε α → Prop
  | .pure _ => True
  | .throw _ => True
  | .stmt st k => ok st ∧ ∀ b, Uses ok (k b)
  | .tx body k => body.Uses ok ∧ ∀ b, Uses ok (k b)

variable {ok : {β : Type} → Stmt β → Prop}

theorem Tx.uses_of_forall (h : ∀ {γ : Type} (st : Stmt γ), ok st) (p : Tx Stmt ε α) : p.Uses ok := by
  induction p with
  | pure a => trivial
  | throw e => trivial
  | stmt st k ih => exact ⟨h st, ih⟩

theorem Prog.uses_of_forall (h : ∀ {γ : Type} (st : Stmt γ), ok st) (p : Prog Stmt ε α) :
    p.Uses ok := by
  induction p with
  | pure a => trivial
  | throw e => trivial
  | stmt st k ih => exact ⟨h st, ih⟩
  | tx body k ih => exact ⟨Tx.uses_of_forall h body, ih⟩

theorem Prog.Uses.bind {p : Prog Stmt ε α} {f : α → Prog Stmt ε β} (hp : p.Uses ok)
    (hf : ∀ a, (f a).Uses ok) : (p >>= f).Uses ok := by
  induction p with
  | pure a => exact hf a
  | throw e => trivial
  | stmt st k ih => exact ⟨hp.1, fun b => ih b (hp.2 b)⟩
  | tx body k ih => exact ⟨hp.1, fun b => ih b (hp.2 b)⟩

theorem Prog.uses_call {st : Stmt α} {f : α → Prog Stmt ε β} (hst : ok st) (hf : ∀ a, (f a).Uses ok) :
    (Prog.call st >>= f).Uses ok := ⟨hst, hf⟩

theorem Prog.uses_expect {found : Option α} {e : ε} {f : α → Prog Stmt ε β}
    (hf : ∀ a, (f a).Uses ok) : (Prog.expect found e >>= f).Uses ok := by
  cases found with
  | none => trivial
  | some a => exact hf a

theorem Prog.uses_require {c : Prop} [Decidable c] {e : ε} {f : Unit → Prog Stmt ε β}
    (hf : (f ()).Uses ok) : (Prog.require c e >>= f).Uses ok := by
  unfold Prog.require
  split
  · exact hf
  · trivial

theorem Prog.uses_when {c : Prop} [Decidable c] {p : Prog Stmt ε Unit} (hp : p.Uses ok) :
    (Prog.when c p).Uses ok := by
  unfold Prog.when
  split
  · exact hp
  · trivial

variable (inv : σ → Prop) (hkeep : ∀ {γ : Type} (st : Stmt γ) {db : σ} {b : γ} {ws : List ω}, ok st →
  inv db → Backend.exec st db = .ok (b, ws) → inv (view Stmt db ws))

include hkeep

theorem Tx.Uses.alone {p : Tx Stmt ε α} (hp : p.Uses ok) {db : σ} {ws : List ω}
    (hdb : inv (view Stmt db ws)) :
    Tx.Returns (fun _ ws' => inv (view Stmt db ws')) p ws db := by
  induction p generalizing ws with
  | pure a =>
      intro a' ws' hrun
      cases hrun
      exact hdb
  | throw e =>
      intro a' ws' hrun
      cases hrun
  | stmt st k ih =>
      refine Tx.returns_call fun b ws' he => ih b (hp.2 b) ?_
      rw [view_append]
      exact hkeep st hp.1 hdb he

-- It is enough to look at one statement.
theorem Prog.Uses.alone {p : Prog Stmt ε α} (hp : p.Uses ok) {db : σ} (hdb : inv db) :
    inv (p.alone db).2 := by
  induction p generalizing db with
  | pure a => exact hdb
  | throw e => exact hdb
  | stmt st k ih =>
      refine Prog.ends_call (E := fun _ db' => inv db') (fun _ => hdb) fun b ws he => ?_
      exact ih b (hp.2 b) (hkeep st hp.1 hdb he)
  | tx body k ih =>
      refine Prog.ends_transaction (E := fun _ db' => inv db') (fun _ => hdb) fun b ws hrun => ?_
      have hstart : inv (view Stmt db []) := hdb
      exact ih b (hp.2 b) (hp.1.alone inv hkeep hstart b ws hrun)

end Uses

-- The data and the news of it that nobody has heard yet.
structure Desk (σ ν : Type*) where
  data : σ
  waiting : List ν

namespace Desk

variable {σ ν κ : Type*} {hears : ν → κ → Prop} {well : κ → σ → Prop} {d : Desk σ ν} {data : σ}
  {news : List ν} {i : ℕ} {e : ν}

-- A change that brings news.
def change (d : Desk σ ν) (data : σ) (news : List ν) : Desk σ ν := ⟨data, d.waiting ++ news⟩

-- The listener of some waiting news has run, with a change of its own.
def hear (d : Desk σ ν) (i : ℕ) (data : σ) (news : List ν) : Desk σ ν :=
  ⟨data, d.waiting.eraseIdx i ++ news⟩

-- What is not well is waited for.
def Awaited (hears : ν → κ → Prop) (well : κ → σ → Prop) (d : Desk σ ν) : Prop :=
  ∀ k, well k d.data ∨ ∃ e ∈ d.waiting, hears e k

theorem Awaited.change (h : d.Awaited hears well)
    (hnews : ∀ k, (well k d.data → well k data) ∨ ∃ e ∈ news, hears e k) :
    (d.change data news).Awaited hears well := by
  intro k
  rcases hnews k with hkeeps | ⟨e, he, hk⟩
  · refine (h k).imp hkeeps fun ⟨e, he, hk⟩ => ?_
    exact ⟨e, List.mem_append_left _ he, hk⟩
  · exact Or.inr ⟨e, List.mem_append_right _ he, hk⟩

theorem mem_waiting_hear (hi : d.waiting[i]? = some e) {e' : ν} :
    e' ∈ d.waiting ↔ e' = e ∨ e' ∈ d.waiting.eraseIdx i := by
  obtain ⟨hlt, rfl⟩ := List.getElem?_eq_some_iff.mp hi
  rw [← List.mem_cons]
  exact (List.getElem_cons_eraseIdx_perm hlt).mem_iff.symm

theorem Awaited.hear (h : d.Awaited hears well) (hi : d.waiting[i]? = some e)
    (hheard : ∀ k, hears e k → well k data) (hkeeps : ∀ k, well k d.data → well k data) :
    (d.hear i data news).Awaited hears well := by
  intro k
  rcases h k with hwell | ⟨e', he', hk⟩
  · exact Or.inl (hkeeps k hwell)
  · rcases (mem_waiting_hear hi).mp he' with rfl | hother
    · exact Or.inl (hheard k hk)
    · exact Or.inr ⟨e', List.mem_append_left _ hother, hk⟩

-- When all news has been heard, all is well.
theorem Awaited.all_well (h : d.Awaited hears well) (hd : d.waiting = []) (k : κ) : well k d.data := by
  refine (h k).resolve_right fun ⟨e, he, _⟩ => ?_
  rw [hd] at he
  exact List.not_mem_nil he

end Desk
