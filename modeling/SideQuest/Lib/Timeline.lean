import SideQuest.Lib.Rely
import Mathlib.Algebra.Order.Group.Int

-- Data that changes over time, copies of it that are kept for a while, and requests whose
-- answers mix what was read at different moments.

-- What the data is now, and all that it has been, latest first.
structure Moment (σ : Type) where
  time : ℤ
  data : σ

structure Timeline (σ : Type) where
  now : Moment σ
  past : List (Moment σ)

namespace Timeline

variable {σ : Type}

def moments (t : Timeline σ) : List (Moment σ) := t.now :: t.past

def change (t : Timeline σ) (elapsed : ℕ) (data : σ) : Timeline σ :=
  ⟨⟨t.now.time + elapsed, data⟩, t.moments⟩

-- It was so at some moment from `since` on.
def Held (t : Timeline σ) (since : ℤ) (p : σ → Prop) : Prop :=
  ∃ m ∈ t.moments, since ≤ m.time ∧ p m.data

-- `t'` continues `t`.
structure Extends (t t' : Timeline σ) : Prop where
  moments : ∀ m ∈ t.moments, m ∈ t'.moments
  time : t.now.time ≤ t'.now.time

variable {t t' t'' : Timeline σ} {since since' : ℤ} {p q : σ → Prop}

theorem Extends.refl (t : Timeline σ) : Extends t t := ⟨fun _ h => h, le_rfl⟩

theorem Extends.trans (h : Extends t t') (h' : Extends t' t'') : Extends t t'' :=
  ⟨fun m hm => h'.moments m (h.moments m hm), h.time.trans h'.time⟩

theorem extends_change (t : Timeline σ) (elapsed : ℕ) (data : σ) : Extends t (t.change elapsed data) :=
  ⟨fun _ hm => List.mem_cons_of_mem _ hm, le_add_of_nonneg_right (Int.natCast_nonneg _)⟩

theorem held_now (hsince : since ≤ t.now.time) (h : p t.now.data) : t.Held since p :=
  ⟨t.now, List.mem_cons_self, hsince, h⟩

theorem Held.extends (h : t.Held since p) (ht : Extends t t') : t'.Held since p := by
  obtain ⟨m, hm, htime, hp⟩ := h
  exact ⟨m, ht.moments m hm, htime, hp⟩

theorem Held.earlier (h : t.Held since p) (hle : since' ≤ since) : t.Held since' p := by
  obtain ⟨m, hm, htime, hp⟩ := h
  exact ⟨m, hm, hle.trans htime, hp⟩

theorem Held.imp (h : t.Held since p) (hpq : ∀ data, p data → q data) : t.Held since q := by
  obtain ⟨m, hm, htime, hp⟩ := h
  exact ⟨m, hm, htime, hpq _ hp⟩

end Timeline

-- A copy that may be handed out until it expires.
structure CacheEntry (α : Type) where
  expiresAt : ℤ
  payload : α
  deriving DecidableEq

namespace CacheEntry

variable {α : Type}

def lookup (now : ℤ) (cache : Option (CacheEntry α)) : Option α :=
  (cache.filter fun e => now < e.expiresAt).map payload

-- `Since a t`: what is in `a` was so from `t` on. An entry was filled a lifetime before it
-- expires.
def Fresh (Since : α → ℤ → Prop) (lifetime : ℤ) (e : CacheEntry α) : Prop :=
  Since e.payload (e.expiresAt - lifetime)

-- A hit is no older than the lifetime.
theorem since_of_lookup {Since : α → ℤ → Prop} {lifetime now : ℤ} {cache : Option (CacheEntry α)} {a : α}
    (hmono : ∀ a t t', t' ≤ t → Since a t → Since a t')
    (hfresh : ∀ e ∈ cache, Fresh Since lifetime e) (h : lookup now cache = some a) :
    Since a (now - lifetime) := by
  obtain ⟨e, he, rfl⟩ := Option.map_eq_some_iff.mp h
  obtain ⟨hmem, hlive⟩ := Option.filter_eq_some_iff.mp he
  have hlt := of_decide_eq_true hlive
  exact hmono _ _ _ (by omega) (hfresh e hmem)

end CacheEntry

namespace Prog

variable {Stmt : Type → Type} {ε α β γ : Type}

-- The statement runs beside the request, after so many of its statements
-- (`Promise.all`).
def alongside (s : Stmt β) : ℕ → Prog Stmt ε α → Prog Stmt ε (β × α)
  | _, .pure a => .stmt s fun b => .pure (b, a)
  | _, .throw e => .throw e
  | 0, p => .stmt s fun b => p >>= fun a => .pure (b, a)
  | n + 1, .stmt st k => .stmt st fun c => alongside s n (k c)
  | n + 1, .tx body k => .tx body fun c => alongside s n (k c)

-- The request can answer with `r` when its statements can answer as `ok` says.
def Yields (ok : {β : Type} → Stmt β → β → Prop) : Prog Stmt ε α → α → Prop
  | .pure a, r => a = r
  | .throw _, _ => False
  | .stmt st k, r => ∃ b, ok st b ∧ Yields ok (k b) r
  | .tx _ _, _ => False

variable {ok : {β : Type} → Stmt β → β → Prop} {p : Prog Stmt ε α}

theorem yields_bind {f : α → Prog Stmt ε γ} {r : γ} :
    Yields ok (p >>= f) r ↔ ∃ a, Yields ok p a ∧ Yields ok (f a) r := by
  induction p with
  | pure a => simp [Yields]
  | throw e => simp [Yields]
  | stmt st k ih =>
      constructor
      · rintro ⟨b, hb, h⟩
        obtain ⟨a, ha, hr⟩ := (ih b).mp h
        exact ⟨a, ⟨b, hb, ha⟩, hr⟩
      · rintro ⟨a, ⟨b, hb, ha⟩, hr⟩
        exact ⟨b, hb, (ih b).mpr ⟨a, ha, hr⟩⟩
  | tx body k ih => simp [Yields, Bind.bind, Prog.bind]

-- When the statement runs makes no difference to what the answers can be.
theorem yields_alongside {s : Stmt β} {n : ℕ} {b : β} {a : α} :
    Yields ok (alongside s n p) (b, a) ↔ ok s b ∧ Yields ok p a := by
  have hfirst (p : Prog Stmt ε α) : Yields ok
      (.stmt s fun b => p >>= fun a => .pure (b, a)) (b, a) ↔ ok s b ∧ Yields ok p a := by
    simp only [Yields, yields_bind, Prod.mk.injEq]
    constructor
    · rintro ⟨b, hb, a, ha, rfl, rfl⟩
      exact ⟨hb, ha⟩
    · exact fun ⟨hb, ha⟩ => ⟨b, hb, a, ha, rfl, rfl⟩
  induction p generalizing n with
  | pure a' =>
      have hstmt : alongside s n (.pure a' : Prog Stmt ε α) = .stmt s fun b => .pure (b, a') := by
        cases n <;> rfl
      rw [hstmt]
      exact hfirst (.pure a')
  | throw e =>
      have hthrow : alongside s n (.throw e : Prog Stmt ε α) = .throw e := by cases n <;> rfl
      rw [hthrow]
      exact ⟨False.elim, fun h => h.2⟩
  | stmt st k ih =>
      cases n with
      | zero => exact hfirst (.stmt st k)
      | succ n =>
          constructor
          · rintro ⟨c, hc, h⟩
            obtain ⟨hb, ha⟩ := (ih c).mp h
            exact ⟨hb, c, hc, ha⟩
          · rintro ⟨hb, c, hc, ha⟩
            exact ⟨c, hc, (ih c).mpr ⟨hb, ha⟩⟩
  | tx body k ih =>
      cases n with
      | zero => exact hfirst (.tx body k)
      | succ n => exact ⟨False.elim, fun h => h.2⟩

end Prog

namespace ReadCommitted.Rules

variable {Stmt : Type → Type} {σ ω ℓ ε η : Type} [Backend Stmt σ ω ℓ ε η] [LawfulBackend Stmt]
  {α β γ : Type}

omit [LawfulBackend Stmt] in
theorem ReadOnly.bind {p : Prog Stmt ε α} {f : α → Prog Stmt ε β} (hp : ReadOnly p)
    (hf : ∀ a, ReadOnly (f a)) : ReadOnly (p >>= f) := by
  induction p with
  | pure a => exact hf a
  | throw e => trivial
  | stmt st k ih => exact ⟨hp.1, fun b => ih b (hp.2 b)⟩
  | tx body k ih => exact hp.elim

omit [LawfulBackend Stmt] in
theorem ReadOnly.alongside {s : Stmt β} {p : Prog Stmt ε α} (hp : ReadOnly p)
    (hs : ∀ db b ws, Backend.exec s db = .ok (b, ws) → ws = []) (n : ℕ) :
    ReadOnly (Prog.alongside s n p) := by
  induction p generalizing n with
  | pure a => cases n <;> exact ⟨hs, fun _ => trivial⟩
  | throw e => cases n <;> trivial
  | stmt st k ih =>
      cases n with
      | zero => exact ⟨hs, fun _ => hp.bind fun _ => trivial⟩
      | succ n => exact ⟨hp.1, fun c => ih c (hp.2 c) n⟩
  | tx body k ih => exact hp.elim

variable {R : Rules Stmt} {me : ℕ} {P : γ → Store σ ω → Prop} {s : Store σ ω}

-- A request that only reads can answer with what its statements can answer, where `ok` is
-- about the present and stays so.
theorem wp_yields (ok : Store σ ω → {β : Type} → Stmt β → β → Prop)
    (hstable : ∀ {s s' : Store σ ω} {β : Type} {st : Stmt β} {b : β}, R.rely me [] s s' →
      ok s st b → ok s' st b)
    (hread : ∀ {s' : Store σ ω} {β : Type} {st : Stmt β} {b : β}, R.rely me [] s s' →
      Backend.exec st s'.db = .ok (b, []) → ok s' st b)
    {p : Prog Stmt ε α} (hp : ReadOnly p) {f : α → Prog Stmt ε γ}
    (h : ∀ s' a, R.rely me [] s s' → Prog.Yields (ok s') p a → R.wp me P (f a) s') :
    R.wp me P (p >>= f) s := by
  induction p generalizing s with
  | pure a => exact wp_of_rely fun s' hr => h s' a hr rfl
  | throw e => trivial
  | stmt st k ih =>
      intro s' hr _ b ws he
      obtain rfl := hp.1 _ b ws he
      refine ⟨commits_nil (R.rely_inv hr), ih b (fun hr' => hread (R.rely_trans hr hr')) (hp.2 b) ?_⟩
      intro s'' a hr' hyields
      exact h s'' a (R.rely_trans hr hr') ⟨b, hstable hr' (hread hr he), hyields⟩
  | tx body k ih => exact hp.elim

end ReadCommitted.Rules
