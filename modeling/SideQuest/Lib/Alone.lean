import SideQuest.Lib.Interleaving

-- Requests that run one at a time.

variable {Stmt : Type → Type} {σ ω ℓ ε η α : Type} [Backend Stmt σ ω ℓ ε η]

open ReadCommitted

-- A transaction's body on its own: its answer and its writes.
def Tx.alone : Tx Stmt ε α → List ω → σ → Except ε (α × List ω)
  | .pure a, ws, _ => .ok (a, ws)
  | .throw e, _, _ => .error e
  | .stmt st k, ws, db =>
      match Backend.exec st (view Stmt db ws) with
      | .error e => .error e
      | .ok (b, ws') => (k b).alone (ws ++ ws') db

-- A request on its own: its answer and the data it leaves behind. A failed statement
-- ends it, and what it committed before stays.
def Prog.alone : Prog Stmt ε α → σ → Except ε α × σ
  | .pure a, db => (.ok a, db)
  | .throw e, db => (.error e, db)
  | .stmt st k, db =>
      match Backend.exec st db with
      | .error e => (.error e, db)
      | .ok (b, ws) => (k b).alone (view Stmt db ws)
  | .tx body k, db =>
      match body.alone [] db with
      | .error e => (.error e, db)
      | .ok (b, ws) => (k b).alone (view Stmt db ws)

-- One step of a program on its own.
section Steps

variable {β : Type} {db : σ} {ws ws' : List ω} {a : α}

theorem Tx.alone_call {st : Stmt α} {f : α → Tx Stmt ε β}
    (h : Backend.exec st (view Stmt db ws) = .ok (a, ws')) :
    (Tx.call st >>= f).alone ws db = (f a).alone (ws ++ ws') db := by
  rw [Tx.call_bind, Tx.alone, h]

theorem Tx.alone_query {st : Stmt α} {f : α → Tx Stmt ε β}
    (h : Backend.exec st (view Stmt db ws) = .ok (a, [])) :
    (Tx.call st >>= f).alone ws db = (f a).alone ws db := by
  rw [Tx.alone_call h, List.append_nil]

theorem Tx.alone_expect {found : Option α} {e : ε} {f : α → Tx Stmt ε β} (h : found = some a) :
    (Tx.expect found e >>= f).alone ws db = (f a).alone ws db := by
  rw [h]
  rfl

theorem Tx.alone_require {c : Prop} [Decidable c] {e : ε} {f : Unit → Tx Stmt ε β} (h : c) :
    (Tx.require c e >>= f).alone ws db = (f ()).alone ws db := by
  rw [Tx.require, if_pos h]
  rfl

theorem Tx.alone_bind {p : Tx Stmt ε α} {f : α → Tx Stmt ε β}
    (h : p.alone ws db = .ok (a, ws')) : (p >>= f).alone ws db = (f a).alone ws' db := by
  induction p generalizing ws with
  | pure b =>
      cases h
      rfl
  | throw e => cases h
  | stmt st k ih =>
      rw [Tx.stmt_bind, Tx.alone]
      simp only [Tx.alone] at h
      split at h
      · cases h
      · rename_i b ws₁ he
        exact ih b h

theorem Prog.alone_call {st : Stmt α} {f : α → Prog Stmt ε β} {ws : List ω}
    (h : Backend.exec st db = .ok (a, ws)) :
    (Prog.call st >>= f).alone db = (f a).alone (view Stmt db ws) := by
  rw [Prog.call_bind, Prog.alone, h]

theorem Prog.alone_query {st : Stmt α} {f : α → Prog Stmt ε β}
    (h : Backend.exec st db = .ok (a, [])) : (Prog.call st >>= f).alone db = (f a).alone db :=
  Prog.alone_call h

theorem Prog.alone_expect {found : Option α} {e : ε} {f : α → Prog Stmt ε β}
    (h : found = some a) : (Prog.expect found e >>= f).alone db = (f a).alone db := by
  rw [h]
  rfl

theorem Prog.alone_require {c : Prop} [Decidable c] {e : ε} {f : Unit → Prog Stmt ε β} (h : c) :
    (Prog.require c e >>= f).alone db = (f ()).alone db := by
  rw [Prog.require, if_pos h]
  rfl

theorem Prog.alone_bind {p : Prog Stmt ε α} {f : α → Prog Stmt ε β} {db' : σ}
    (h : p.alone db = (.ok a, db')) : (p >>= f).alone db = (f a).alone db' := by
  induction p generalizing db with
  | pure b =>
      cases h
      rfl
  | throw e => cases h
  | stmt st k ih =>
      rw [Prog.stmt_bind, Prog.alone]
      simp only [Prog.alone] at h
      split at h
      · cases h
      · rename_i b ws he
        exact ih b h
  | tx body k ih =>
      have hbind : (Prog.tx body k >>= f) = .tx body fun b => k b >>= f := rfl
      rw [hbind, Prog.alone]
      simp only [Prog.alone] at h
      split at h
      · cases h
      · rename_i b ws he
        exact ih b h

theorem Prog.alone_last {st : Stmt α} {ws : List ω} (h : Backend.exec st db = .ok (a, ws)) :
    (Prog.call st : Prog Stmt ε α).alone db = (.ok a, view Stmt db ws) := by
  simp only [Prog.call, Prog.alone, h]

theorem Prog.alone_call_error {st : Stmt α} {f : α → Prog Stmt ε β} {e : ε}
    (h : Backend.exec st db = .error e) : (Prog.call st >>= f).alone db = (.error e, db) := by
  rw [Prog.call_bind, Prog.alone, h]

theorem Prog.alone_expect_none {found : Option α} {e : ε} {f : α → Prog Stmt ε β}
    (h : found = none) : (Prog.expect found e >>= f).alone db = (.error e, db) := by
  rw [h]
  rfl

theorem Prog.alone_require_not {c : Prop} [Decidable c] {e : ε} {f : Unit → Prog Stmt ε β}
    (h : ¬c) : (Prog.require c e >>= f).alone db = (.error e, db) := by
  rw [Prog.require, if_neg h]
  rfl

-- Without its answer a request leaves the same data behind.
theorem Prog.alone_void (p : Prog Stmt ε α) (db : σ) : (p.void.alone db).2 = (p.alone db).2 := by
  unfold Prog.void
  induction p generalizing db with
  | pure a => rfl
  | throw e => rfl
  | stmt st k ih =>
      rw [Prog.stmt_bind, Prog.alone, Prog.alone]
      split
      · rfl
      · rename_i b ws he
        exact ih b _
  | tx body k ih =>
      have hbind : (Prog.tx body k >>= fun _ => Prog.pure ()) =
        .tx body fun b => k b >>= fun _ => .pure () := rfl
      rw [hbind, Prog.alone, Prog.alone]
      split
      · rfl
      · rename_i b ws he
        exact ih b _

theorem Prog.alone_transaction {body : Tx Stmt ε α} {f : α → Prog Stmt ε β} {ws : List ω}
    (h : body.alone [] db = .ok (a, ws)) :
    (Prog.transaction body >>= f).alone db = (f a).alone (view Stmt db ws) := by
  have hstep : (Prog.transaction body >>= f) = .tx body f := rfl
  rw [hstep, Prog.alone, h]

theorem Prog.alone_when_call {c : Prop} [Decidable c] {st : Stmt Unit} {ws : List ω}
    (h : Backend.exec st db = .ok ((), ws)) :
    (Prog.when c (Prog.call st : Prog Stmt ε Unit)).alone db =
      (.ok (), view Stmt db (if c then ws else [])) := by
  unfold Prog.when
  split
  · simp only [Prog.call, Prog.alone, h]
  · rfl

theorem Prog.alone_queries {p : Prog Stmt ε α} (h : Rules.Queries p) (db : σ) :
    ∃ a, p.alone db = (.ok a, db) := by
  induction p with
  | pure a => exact ⟨a, rfl⟩
  | throw e => exact h.elim
  | stmt st k ih =>
      obtain ⟨b, hb⟩ := h.1 db
      obtain ⟨a, ha⟩ := ih b (h.2 b)
      exact ⟨a, (Prog.alone_query hb).trans ha⟩
  | tx body k ih => exact h.elim

-- What every write keeps, every request keeps.
theorem Prog.alone_keeps {inv : σ → Prop}
    (h : ∀ db w, inv db → inv (Backend.apply Stmt db w)) (p : Prog Stmt ε α) (hdb : inv db) :
    inv (p.alone db).2 := by
  have hview (ws : List ω) (db : σ) (hdb : inv db) : inv (view Stmt db ws) := by
    induction ws generalizing db with
    | nil => exact hdb
    | cons w ws ih => exact ih _ (h db w hdb)
  induction p generalizing db with
  | pure a => exact hdb
  | throw e => exact hdb
  | stmt st k ih =>
      simp only [Prog.alone]
      split
      · exact hdb
      · exact ih _ (hview _ _ hdb)
  | tx body k ih =>
      simp only [Prog.alone]
      split
      · exact hdb
      · exact ih _ (hview _ _ hdb)

end Steps

-- What the outcomes of a program on its own have in common, one step at a time.
section Outcomes

-- If the body returns, then with this answer and these writes.
def Tx.Returns (Q : α → List ω → Prop) (p : Tx Stmt ε α) (ws : List ω) (db : σ) : Prop :=
  ∀ a ws', p.alone ws db = .ok (a, ws') → Q a ws'

-- The request ends with this answer, or this error, and leaves this data behind.
def Prog.Ends (Q : Except ε α → σ → Prop) (p : Prog Stmt ε α) (db : σ) : Prop :=
  Q (p.alone db).1 (p.alone db).2

variable {β : Type} {db : σ} {ws : List ω} {Q : β → List ω → Prop} {E : Except ε β → σ → Prop}

theorem Tx.returns_query {st : Stmt α} {answer : σ → α} {f : α → Tx Stmt ε β}
    (hst : ∀ db, Backend.exec st db = .ok (answer db, []))
    (h : Tx.Returns Q (f (answer (view Stmt db ws))) ws db) :
    Tx.Returns Q (Tx.call st >>= f) ws db := by
  intro b ws' hrun
  rw [Tx.alone_query (hst _)] at hrun
  exact h b ws' hrun

theorem Tx.returns_call {st : Stmt α} {f : α → Tx Stmt ε β}
    (h : ∀ a ws', Backend.exec st (view Stmt db ws) = .ok (a, ws') →
      Tx.Returns Q (f a) (ws ++ ws') db) : Tx.Returns Q (Tx.call st >>= f) ws db := by
  intro b ws' hrun
  rw [Tx.call_bind, Tx.alone] at hrun
  split at hrun
  · cases hrun
  · rename_i a ws₁ he
    exact h a ws₁ he b ws' hrun

theorem Tx.returns_bind {p : Tx Stmt ε α} {f : α → Tx Stmt ε β} {P : α → List ω → Prop}
    (hp : Tx.Returns P p ws db) (h : ∀ a ws', P a ws' → Tx.Returns Q (f a) ws' db) :
    Tx.Returns Q (p >>= f) ws db := by
  induction p generalizing ws with
  | pure a => exact h a ws (hp a ws rfl)
  | throw e =>
      intro b ws' hrun
      cases hrun
  | stmt st k ih =>
      intro b ws' hrun
      rw [Tx.stmt_bind, Tx.alone] at hrun
      split at hrun
      · cases hrun
      · rename_i a ws₁ he
        refine ih a (fun c ws₂ hc => hp c ws₂ ?_) b ws' hrun
        rw [Tx.alone, he]
        exact hc

theorem Tx.returns_expect {found : Option α} {e : ε} {f : α → Tx Stmt ε β}
    (h : ∀ a, found = some a → Tx.Returns Q (f a) ws db) :
    Tx.Returns Q (Tx.expect found e >>= f) ws db := by
  cases found with
  | none =>
      intro b ws' hrun
      cases hrun
  | some a => exact h a rfl

theorem Tx.returns_require {c : Prop} [Decidable c] {e : ε} {f : Unit → Tx Stmt ε β}
    (h : c → Tx.Returns Q (f ()) ws db) : Tx.Returns Q (Tx.require c e >>= f) ws db := by
  intro b ws' hrun
  by_cases hc : c
  · rw [Tx.alone_require hc] at hrun
    exact h hc b ws' hrun
  · rw [Tx.require, if_neg hc] at hrun
    cases hrun

theorem Prog.ends_query {st : Stmt α} {answer : σ → α} {f : α → Prog Stmt ε β}
    (hst : ∀ db, Backend.exec st db = .ok (answer db, []))
    (h : Prog.Ends E (f (answer db)) db) : Prog.Ends E (Prog.call st >>= f) db := by
  rwa [Prog.Ends, Prog.alone_query (hst db)]

theorem Prog.ends_call {st : Stmt α} {f : α → Prog Stmt ε β} (herror : ∀ e, E (.error e) db)
    (h : ∀ a ws, Backend.exec st db = .ok (a, ws) → Prog.Ends E (f a) (view Stmt db ws)) :
    Prog.Ends E (Prog.call st >>= f) db := by
  rw [Prog.Ends, Prog.call_bind, Prog.alone]
  split
  · exact herror _
  · rename_i a ws he
    exact h a ws he

theorem Prog.ends_expect {found : Option α} {e : ε} {f : α → Prog Stmt ε β}
    (herror : E (.error e) db) (h : ∀ a, found = some a → Prog.Ends E (f a) db) :
    Prog.Ends E (Prog.expect found e >>= f) db := by
  cases found with
  | none => exact herror
  | some a => exact h a rfl

theorem Prog.ends_require {c : Prop} [Decidable c] {e : ε} {f : Unit → Prog Stmt ε β}
    (herror : E (.error e) db) (h : c → Prog.Ends E (f ()) db) :
    Prog.Ends E (Prog.require c e >>= f) db := by
  by_cases hc : c
  · rw [Prog.Ends, Prog.alone_require hc]
    exact h hc
  · rw [Prog.require, if_neg hc]
    exact herror

theorem Prog.ends_bind {p : Prog Stmt ε α} {a : α} {f : α → Prog Stmt ε β} {db' : σ}
    (hp : p.alone db = (.ok a, db')) (h : Prog.Ends E (f a) db') : Prog.Ends E (p >>= f) db := by
  rwa [Prog.Ends, Prog.alone_bind hp]

-- Whatever the first program ends with.
theorem Prog.ends_then {p : Prog Stmt ε α} {f : α → Prog Stmt ε β} {P : Except ε α → σ → Prop}
    (hp : Prog.Ends P p db) (hok : ∀ a db', P (.ok a) db' → Prog.Ends E (f a) db')
    (herror : ∀ e db', P (.error e) db' → E (.error e) db') : Prog.Ends E (p >>= f) db := by
  induction p generalizing db with
  | pure a => exact hok a db hp
  | throw e => exact herror e db hp
  | stmt st k ih =>
      rw [Prog.Ends, Prog.stmt_bind, Prog.alone]
      simp only [Prog.Ends, Prog.alone] at hp
      split
      · rename_i e he
        rw [he] at hp
        exact herror e db hp
      · rename_i b ws he
        rw [he] at hp
        exact ih b hp
  | tx body k ih =>
      have hbind : (Prog.tx body k >>= f) = .tx body fun b => k b >>= f := rfl
      rw [Prog.Ends, hbind, Prog.alone]
      simp only [Prog.Ends, Prog.alone] at hp
      split
      · rename_i e he
        rw [he] at hp
        exact herror e db hp
      · rename_i b ws he
        rw [he] at hp
        exact ih b hp

theorem Prog.ends_transaction {body : Tx Stmt ε α} {f : α → Prog Stmt ε β}
    (herror : ∀ e, E (.error e) db)
    (h : ∀ a ws, body.alone [] db = .ok (a, ws) → Prog.Ends E (f a) (view Stmt db ws)) :
    Prog.Ends E (Prog.transaction body >>= f) db := by
  have hstep : (Prog.transaction body >>= f) = .tx body f := rfl
  rw [Prog.Ends, hstep, Prog.alone]
  split
  · exact herror _
  · rename_i a ws he
    exact h a ws he

end Outcomes

-- Calls that are served one at a time, each on the data that the ones before it have
-- left behind.
section OneByOne

variable {ι : Type*} (after : ι → σ → σ)

def oneByOne (calls : List ι) (db : σ) : σ := calls.foldl (fun db call => after call db) db

-- Every call meets a condition on the data that it finds.
def EachMeets (cond : ι → σ → Prop) : List ι → σ → Prop
  | [], _ => True
  | call :: rest, db => cond call db ∧ EachMeets cond rest (after call db)

variable {after}

-- The run rule: a call that meets its condition keeps the invariant.
theorem oneByOne_inv {inv : σ → Prop} {cond : ι → σ → Prop} {calls : List ι} {db : σ}
    (hcall : ∀ call ∈ calls, ∀ db, inv db → cond call db → inv (after call db))
    (hdb : inv db) (h : EachMeets after cond calls db) : inv (oneByOne after calls db) := by
  induction calls generalizing db with
  | nil => exact hdb
  | cons call rest ih =>
      have hnext := hcall call List.mem_cons_self db hdb h.1
      exact ih (fun call hmem => hcall call (List.mem_cons_of_mem _ hmem)) hnext h.2

theorem eachMeets_of_forall {cond : ι → σ → Prop} (h : ∀ call db, cond call db) (calls : List ι)
    (db : σ) : EachMeets after cond calls db := by
  induction calls generalizing db with
  | nil => trivial
  | cons call rest ih => exact ⟨h call db, ih (after call db)⟩

-- Conditions that agree wherever the invariant holds agree along the calls.
theorem eachMeets_congr {inv : σ → Prop} {cond cond' : ι → σ → Prop}
    (hkeep : ∀ call db, inv db → inv (after call db))
    (hiff : ∀ call db, inv db → (cond call db ↔ cond' call db)) {db : σ} (hdb : inv db)
    (calls : List ι) : EachMeets after cond calls db ↔ EachMeets after cond' calls db := by
  induction calls generalizing db with
  | nil => exact Iff.rfl
  | cons call rest ih => exact and_congr (hiff call db hdb) (ih (hkeep call db hdb))

-- When the first call that does not meet its condition breaks the property, the
-- property holds all along exactly if every call meets its condition.
theorem forall_prefix_iff_eachMeets (inv : σ → Prop) {property : σ → Prop}
    {cond : ι → σ → Prop} {calls : List ι} {db : σ}
    (hcall : ∀ call ∈ calls, ∀ db, inv db → cond call db → inv (after call db))
    (hproperty : ∀ db, inv db → property db)
    (hbreak : ∀ call ∈ calls, ∀ db, inv db → ¬cond call db → ¬property (after call db))
    (hdb : inv db) :
    (∀ before, before <+: calls → property (oneByOne after before db)) ↔
      EachMeets after cond calls db := by
  induction calls generalizing db with
  | nil =>
      constructor
      · exact fun _ => trivial
      · intro _ before hbefore
        rw [List.prefix_nil.mp hbefore]
        exact hproperty db hdb
  | cons call rest ih =>
      have hhead := hcall call List.mem_cons_self db hdb
      have htail (hnext : inv (after call db)) :=
        ih (fun call hmem => hcall call (List.mem_cons_of_mem _ hmem))
          (fun call hmem => hbreak call (List.mem_cons_of_mem _ hmem)) hnext
      constructor
      · intro h
        have hfirst : property (after call db) := h [call] ⟨rest, rfl⟩
        have hcond : cond call db := by
          by_contra hn
          exact hbreak call List.mem_cons_self db hdb hn hfirst
        refine ⟨hcond, (htail (hhead hcond)).mp fun before hbefore => ?_⟩
        exact h (call :: before) ((List.prefix_cons_inj call).mpr hbefore)
      · rintro ⟨hcond, hrest⟩ before hbefore
        rcases List.prefix_cons_iff.mp hbefore with rfl | ⟨before', rfl, hbefore'⟩
        · exact hproperty db hdb
        · exact (htail (hhead hcond)).mpr hrest before' hbefore'

end OneByOne

namespace ReadCommitted

variable [LawfulBackend Stmt]

-- Nobody else is there.
def Rules.alone (inv : σ → Prop) : Rules Stmt where
  inv s := inv s.db
  rely _ _ s s' := inv s.db ∧ s' = s
  guar _ _ := True
  guard := Guard.none
  guar_refl _ := trivial
  rely_inv h := h.2 ▸ h.1
  rely_same h l _ := h.2 ▸ LawfulBackend.same_refl l _
  rely_refl h := ⟨h, rfl⟩
  rely_trans h h' := ⟨h.1, h'.2.trans h.2⟩

variable {inv : σ → Prop} {me : Nat}

theorem Rules.wpTx_alone {Q : List (Seen Stmt) → List ω → α → Store σ ω → Prop}
    {p : Tx Stmt ε α} {seen : List (Seen Stmt)} {ws : List ω} {s : Store σ ω} (hs : inv s.db)
    (h : (Rules.alone inv).wpTx me Q p seen ws s) {a : α} {ws' : List ω}
    (hrun : p.alone ws s.db = .ok (a, ws')) : ∃ seen', Q seen' ws' a s := by
  induction p generalizing seen ws with
  | pure b =>
      cases hrun
      exact ⟨seen, h s ⟨hs, rfl⟩⟩
  | throw e => cases hrun
  | stmt st k ih =>
      simp only [Tx.alone] at hrun
      split at hrun
      · cases hrun
      · rename_i b ws₁ he
        exact ih b (h s ⟨hs, rfl⟩ rfl b ws₁ he) hrun

-- A request that keeps the invariant when nobody interferes leaves it intact, also
-- when it fails, and its answer meets the postcondition.
theorem Rules.wp_alone {Q : α → Store σ ω → Prop} {p : Prog Stmt ε α} {s : Store σ ω}
    (hs : inv s.db) (h : (Rules.alone inv).wp me Q p s) :
    inv (p.alone s.db).2 ∧
      ∀ a, (p.alone s.db).1 = .ok a → ∃ s', s'.db = (p.alone s.db).2 ∧ Q a s' := by
  induction p generalizing s with
  | pure a =>
      refine ⟨hs, fun b hb => ?_⟩
      cases hb
      exact ⟨s, rfl, h s ⟨hs, rfl⟩⟩
  | throw e => exact ⟨hs, fun b hb => by cases hb⟩
  | stmt st k ih =>
      simp only [Prog.alone]
      split
      · exact ⟨hs, fun b hb => by cases hb⟩
      · rename_i b ws he
        obtain ⟨hc, hk⟩ := h s ⟨hs, rfl⟩ rfl b ws he
        simpa only [Store.commit_db] using ih b hc.1 hk
  | tx body k ih =>
      simp only [Prog.alone]
      split
      · exact ⟨hs, fun b hb => by cases hb⟩
      · rename_i b ws he
        obtain ⟨_, hc, hk⟩ := Rules.wpTx_alone hs h he
        simpa only [Store.commit_db] using ih b hc.1 hk

end ReadCommitted
