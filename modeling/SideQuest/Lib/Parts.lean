import SideQuest.Lib.Alone
import SideQuest.Lib.Races

-- A backend that is part of a larger one: its programs run on the larger database, next to
-- statements that it does not have.

namespace ReadCommitted

structure Part (Stmt Stmt' : Type → Type) {σ ω ℓ ε η σ' ω' ℓ' η' : outParam Type}
    [Backend Stmt σ ω ℓ ε η] [Backend Stmt' σ' ω' ℓ' ε η'] where
  stmt {β : Type} : Stmt β → Stmt' β
  write : ω → ω'
  get : σ' → σ
  put : σ' → σ → σ'
  get_put : ∀ db w, get (put db w) = w
  put_put : ∀ db w w', put (put db w) w' = put db w'
  put_get : ∀ db, put db (get db) = db
  exec_stmt : ∀ {β : Type} (st : Stmt β) db, Backend.exec (stmt st) db =
    (Backend.exec st (get db)).map fun answered => (answered.1, answered.2.map write)
  apply_write : ∀ db w, Backend.apply Stmt' db (write w) = put db (Backend.apply Stmt (get db) w)

namespace Part

variable {Stmt Stmt' : Type → Type} {σ ω ℓ ε η σ' ω' ℓ' η' : Type} [Backend Stmt σ ω ℓ ε η]
  [Backend Stmt' σ' ω' ℓ' ε η'] (part : Part Stmt Stmt') {α : Type}

def tx : Tx Stmt ε α → Tx Stmt' ε α
  | .pure a => .pure a
  | .throw e => .throw e
  | .stmt st k => .stmt (part.stmt st) fun b => tx (k b)

def prog : Prog Stmt ε α → Prog Stmt' ε α
  | .pure a => .pure a
  | .throw e => .throw e
  | .stmt st k => .stmt (part.stmt st) fun b => prog (k b)
  | .tx body k => .tx (part.tx body) fun b => prog (k b)

def read (r : Seen Stmt) : Seen Stmt' := ⟨part.stmt r.stmt, r.answer⟩

theorem view_write (ws : List ω) (db : σ') :
    view Stmt' db (ws.map part.write) = part.put db (view Stmt (part.get db) ws) := by
  induction ws generalizing db with
  | nil => exact (part.put_get db).symm
  | cons w ws ih =>
      rw [List.map_cons, view_cons, view_cons, ih, part.apply_write, part.get_put, part.put_put]

theorem exec_ok {β : Type} {st : Stmt β} {db : σ'} {b : β} {ws : List ω'}
    (h : Backend.exec (part.stmt st) db = .ok (b, ws)) :
    ∃ own, Backend.exec st (part.get db) = .ok (b, own) ∧ ws = own.map part.write := by
  rw [part.exec_stmt] at h
  cases he : Backend.exec st (part.get db) with
  | error e =>
      rw [he] at h
      cases h
  | ok answered =>
      rw [he] at h
      cases h
      exact ⟨answered.2, rfl, rfl⟩

-- On its own a program does to its part of the database what it does there.
theorem alone_tx (p : Tx Stmt ε α) (ws : List ω) (db : σ') :
    (part.tx p).alone (ws.map part.write) db =
      (p.alone ws (part.get db)).map fun answered => (answered.1, answered.2.map part.write) := by
  induction p generalizing ws with
  | pure a => rfl
  | throw e => rfl
  | stmt st k ih =>
      simp only [tx, Tx.alone]
      rw [part.view_write, part.exec_stmt, part.get_put]
      cases Backend.exec st (view Stmt (part.get db) ws) with
      | error e => rfl
      | ok answered =>
          obtain ⟨b, ws'⟩ := answered
          have hnext := ih b (ws ++ ws')
          rw [List.map_append] at hnext
          exact hnext

-- What follows on a commit to the part.
theorem alone_after {p : Prog Stmt ε α} (h : ∀ db, (part.prog p).alone db =
      ((p.alone (part.get db)).1, part.put db (p.alone (part.get db)).2)) (ws : List ω) (db : σ') :
    (part.prog p).alone (view Stmt' db (ws.map part.write)) =
      ((p.alone (view Stmt (part.get db) ws)).1,
        part.put db (p.alone (view Stmt (part.get db) ws)).2) := by
  have hnext := h (part.put db (view Stmt (part.get db) ws))
  rw [part.get_put, part.put_put] at hnext
  rw [part.view_write]
  exact hnext

theorem alone_prog (p : Prog Stmt ε α) (db : σ') : (part.prog p).alone db =
    ((p.alone (part.get db)).1, part.put db (p.alone (part.get db)).2) := by
  induction p generalizing db with
  | pure a => exact Prod.ext rfl (part.put_get db).symm
  | throw e => exact Prod.ext rfl (part.put_get db).symm
  | stmt st k ih =>
      simp only [prog, Prog.alone]
      rw [part.exec_stmt]
      cases Backend.exec st (part.get db) with
      | error e => exact Prod.ext rfl (part.put_get db).symm
      | ok answered =>
          obtain ⟨b, ws⟩ := answered
          exact part.alone_after (ih b) ws db
  | tx body k ih =>
      have hbody := part.alone_tx body [] db
      simp only [List.map_nil] at hbody
      simp only [prog, Prog.alone]
      rw [hbody]
      cases body.alone [] (part.get db) with
      | error e => exact Prod.ext rfl (part.put_get db).symm
      | ok answered =>
          obtain ⟨b, ws⟩ := answered
          exact part.alone_after (ih b) ws db

-- A program that has read enough for its commits keeps a contract that is about nothing
-- else.
section Races

variable [LawfulBackend Stmt'] {C : RaceContract Stmt' σ' ω'} {me : Nat}
  {ok : List (Seen Stmt) → {β : Type} → Stmt β → Prop} {fine : List (Seen Stmt) → List ω → Prop}

theorem wpTx_of_informed {Q : List (Seen Stmt) → List ω → α → Prop}
    {Q' : List (Seen Stmt') → List ω' → α → Store σ' ω' → Prop} {p : Tx Stmt ε α}
    {seen : List (Seen Stmt)} {ws : List ω} {s : Store σ' ω'} (hp : TxInformed ok Q p seen ws)
    (hQ : ∀ seen ws a s, C.inv s → Q seen ws a →
      Q' (seen.map part.read) (ws.map part.write) a s) :
    C.wpTx me Q' (part.tx p) (seen.map part.read) (ws.map part.write) s := by
  induction p generalizing seen ws s with
  | pure a => exact fun s' hr => hQ seen ws a s' (C.rules.rely_inv hr) hp
  | throw e => trivial
  | stmt st k ih =>
      intro s' _ _ b ws' he
      obtain ⟨own, hown, rfl⟩ := part.exec_ok he
      rw [← List.map_append]
      exact ih b (hp.2 _ b own hown)

theorem wp_of_informed (hrules : ∀ s ws, C.inv s → C.rules.Commits me s ws)
    (hcommit : ∀ {seen : List (Seen Stmt)} {db : σ'} {ws : List ω}, fine seen ws →
      C.guard (seen.map part.read) (.commit (ws.map part.write)) db = true →
        C.commit db (ws.map part.write))
    {Q : List (Seen Stmt) → α → Prop} {p : Prog Stmt ε α} {seen : List (Seen Stmt)}
    {s : Store σ' ω'} (hp : Informed ok fine Q p seen) :
    C.wp me (fun _ _ _ => True) (part.prog p) (seen.map part.read) s := by
  induction p generalizing seen s with
  | pure a => exact fun _ _ => trivial
  | throw e => trivial
  | stmt st k ih =>
      intro s' hr _ b ws he hg
      obtain ⟨own, hown, rfl⟩ := part.exec_ok he
      obtain ⟨hfine, hnext⟩ := hp.2 _ b own hown
      have hc := hrules s' (own.map part.write) (C.rules.rely_inv hr)
      exact ⟨⟨hc, hcommit hfine hg⟩, ih b hnext⟩
  | tx body k ih =>
      refine part.wpTx_of_informed hp fun seen ws b s' hs' hlater hg => ?_
      exact ⟨⟨hrules s' _ hs', hcommit hlater.1 hg⟩, ih b hlater.2⟩

end Races

end Part

end ReadCommitted
