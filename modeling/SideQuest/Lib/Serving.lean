import SideQuest.Lib.Alone

-- A service that answers its calls one at a time, and a second one that says what it is for.

namespace Serving

variable {σ τ : Type} {ι κ α : Type*}

-- The answers to the calls, and the data that they leave behind.
def serve (attempt : ι → σ → α × σ) : List ι → σ → List α × σ
  | [], db => ([], db)
  | call :: rest, db =>
      let served := serve attempt rest (attempt call db).2
      ((attempt call db).1 :: served.1, served.2)

-- What each call means on the data that it finds.
def meanings (attempt : ι → σ → α × σ) (meaning : ι → σ → κ) : List ι → σ → List κ
  | [], _ => []
  | call :: rest, db => meaning call db :: meanings attempt meaning rest (attempt call db).2

-- Every call that meets its condition is answered as what it means to the second service,
-- and changes as much.
structure Simulates (attempt : ι → σ → α × σ) (attempt' : κ → τ → α × τ) (meaning : ι → σ → κ)
    (abs : σ → τ) (inv : σ → Prop) (cond : ι → σ → Prop) : Prop where
  keeps : ∀ {call db}, inv db → cond call db → inv (attempt call db).2
  answers : ∀ {call db}, inv db → cond call db →
    attempt' (meaning call db) (abs db) = ((attempt call db).1, abs (attempt call db).2)

section

variable {attempt : ι → σ → α × σ} {attempt' : κ → τ → α × τ} {meaning : ι → σ → κ} {abs : σ → τ}
  {inv : σ → Prop} {cond : ι → σ → Prop} {calls : List ι} {db : σ}

theorem serve_db (attempt : ι → σ → α × σ) (calls : List ι) (db : σ) :
    (serve attempt calls db).2 = oneByOne (fun call db => (attempt call db).2) calls db := by
  induction calls generalizing db with
  | nil => rfl
  | cons call rest ih => exact ih (attempt call db).2

theorem Simulates.inv_serve (h : Simulates attempt attempt' meaning abs inv cond) (hdb : inv db)
    (hcalls : EachMeets (fun call db => (attempt call db).2) cond calls db) :
    inv (serve attempt calls db).2 := by
  rw [serve_db]
  exact oneByOne_inv (fun call _ db hinv hcond => h.keeps hinv hcond) hdb hcalls

-- So are all the calls together.
theorem Simulates.serve_eq (h : Simulates attempt attempt' meaning abs inv cond) (hdb : inv db)
    (hcalls : EachMeets (fun call db => (attempt call db).2) cond calls db) :
    serve attempt' (meanings attempt meaning calls db) (abs db) =
      ((serve attempt calls db).1, abs (serve attempt calls db).2) := by
  induction calls generalizing db with
  | nil => rfl
  | cons call rest ih =>
      have hhead := h.answers hdb hcalls.1
      have htail := ih (h.keeps hdb hcalls.1) hcalls.2
      simp only [meanings, serve]
      rw [hhead, htail]

end

end Serving
