import SideQuest.Model.Entities
import SideQuest.Lib.Rely

-- The ratings of the quests: `QuestRating`, the two columns of `Quest` that summarise it,
-- and `QuestsService` as far as it writes them. No other modelled service reads or writes
-- either, so they are a database of their own.

namespace SideQuest

structure QuestRating where
  userId : Id
  questId : Id
  score : ℤ
  comment : Option String := none
  deriving DecidableEq

-- `@@unique([userId, questId])`
def QuestRating.key (r : QuestRating) : Id × Id := (r.userId, r.questId)

structure RatedQuest where
  id : Id
  ratingAvg : Option ℚ := none
  ratingCount : ℕ := 0
  deriving DecidableEq

namespace Ratings

structure World where
  users : Table User.id
  quests : Table RatedQuest.id
  ratings : Table QuestRating.key

structure RatingUpdate where
  score : ℤ
  comment : Option String
  deriving DecidableEq

def RatingUpdate.apply (d : RatingUpdate) (r : QuestRating) : QuestRating :=
  { r with score := d.score, comment := d.comment <|> r.comment }

@[simp] theorem RatingUpdate.key_apply (d : RatingUpdate) (r : QuestRating) :
    (d.apply r).key = r.key := rfl

structure QuestUpdate where
  ratingAvg : Option ℚ
  ratingCount : ℕ
  deriving DecidableEq

def QuestUpdate.apply (d : QuestUpdate) (q : RatedQuest) : RatedQuest :=
  { q with ratingAvg := d.ratingAvg, ratingCount := d.ratingCount }

@[simp] theorem QuestUpdate.id_apply (d : QuestUpdate) (q : RatedQuest) : (d.apply q).id = q.id := rfl

inductive Write where
  | ratingCreate (row : QuestRating)
  | ratingUpdate (userId questId : Id) (data : RatingUpdate)
  | ratingDelete (userId questId : Id)
  | questUpdate (id : Id) (data : QuestUpdate)
  deriving DecidableEq

inductive Lock where
  | rating (userId questId : Id)
  | quest (id : Id)
  deriving DecidableEq

def Write.locks : Write → List Lock
  | .ratingCreate row => [.rating row.userId row.questId]
  | .ratingUpdate u q _ => [.rating u q]
  | .ratingDelete u q => [.rating u q]
  | .questUpdate id _ => [.quest id]

namespace World

def apply (w : World) : Write → World
  | .ratingCreate row => { w with ratings := w.ratings.insert row }
  | .ratingUpdate u q d => { w with ratings := w.ratings.modify (u, q) d.apply d.key_apply }
  | .ratingDelete u q => { w with ratings := w.ratings.erase (u, q) }
  | .questUpdate id d => { w with quests := w.quests.modify id d.apply d.id_apply }

def scoresOf (w : World) (questId : Id) : List ℤ :=
  (w.ratings.rows.filter fun r => r.questId = questId).map QuestRating.score

end World

-- `AVG`, which is null over no rows.
def average (scores : List ℤ) : Option ℚ :=
  if scores = [] then none else some (scores.sum / scores.length)

-- `{ _avg: { score }, _count: { score } }`
structure Aggregate where
  avg : Option ℚ
  count : ℕ
  deriving DecidableEq

def World.aggregate (w : World) (questId : Id) : Aggregate :=
  ⟨average (w.scoresOf questId), (w.scoresOf questId).length⟩

inductive Stmt : Type → Type where
  | questFindById (id : Id) : Stmt (Option RatedQuest)
  | ratingUpsert (userId questId : Id) (score : ℤ) (comment : Option String) : Stmt Unit
  | ratingDeleteMany (userId questId : Id) : Stmt ℕ
  | ratingAggregate (questId : Id) : Stmt Aggregate
  | questUpdate (id : Id) (data : QuestUpdate) : Stmt Unit

def Stmt.exec {β : Type} : Stmt β → World → Except ApiError (β × List Write)
  | .questFindById id, w => .ok (w.quests.find? id, [])
  | .ratingUpsert u q score comment, w =>
      match w.ratings.find? (u, q) with
      | some _ => .ok ((), [.ratingUpdate u q ⟨score, comment⟩])
      | none =>
          if (w.users.find? u).isNone ∨ (w.quests.find? q).isNone then .error (.prisma .P2003)
          else .ok ((), [.ratingCreate ⟨u, q, score, comment⟩])
  | .ratingDeleteMany u q, w =>
      match w.ratings.find? (u, q) with
      | some _ => .ok (1, [.ratingDelete u q])
      | none => .ok (0, [])
  | .ratingAggregate q, w => .ok (w.aggregate q, [])
  | .questUpdate id d, w =>
      match w.quests.find? id with
      | some _ => .ok ((), [.questUpdate id d])
      | none => .error (.prisma .P2025)

-- Nothing else happens to these tables.
instance : Backend Stmt World Write Lock ApiError Empty where
  exec := Stmt.exec
  apply := World.apply
  locks := Write.locks
  happen e _ := e.elim

def Lock.same : Lock → World → World → Prop
  | .rating u q, w, w' => w'.ratings.find? (u, q) = w.ratings.find? (u, q)
  | .quest id, w, w' => w'.quests.find? id = w.quests.find? id

theorem Lock.same_apply {l : Lock} (w : World) {wr : Write} (h : l ∉ wr.locks) :
    l.same w (w.apply wr) := by
  cases l with
  | rating u q =>
      cases wr with
      | ratingCreate row =>
          exact Table.find?_insert_ne _ fun he => h (by cases he; exact List.mem_cons_self)
      | ratingUpdate u' q' d =>
          exact Table.find?_modify_ne _ _ (RatingUpdate.key_apply _)
            fun he => h (by cases he; exact List.mem_cons_self)
      | ratingDelete u' q' =>
          exact (Table.find?_erase _ _ _).trans
            (if_neg fun he => h (by cases he; exact List.mem_cons_self))
      | questUpdate id d => rfl
  | quest id =>
      cases wr with
      | questUpdate id' d =>
          exact Table.find?_modify_ne _ _ (QuestUpdate.id_apply _)
            fun he => h (by cases he; exact List.mem_cons_self)
      | _ => rfl

instance : ReadCommitted.LawfulBackend Stmt where
  same := Lock.same
  same_refl l _ := by cases l <;> rfl
  same_trans {l _ _ _} h h' := by cases l <;> exact h'.trans h
  same_apply := Lock.same_apply
  same_happen _ _ e := e.elim

-- The requests of `QuestsService`.
abbrev Request (α : Type) := Prog Stmt ApiError α

abbrev prisma {α : Type} (s : Stmt α) : Request α := Prog.call s

abbrev tx {α : Type} (s : Stmt α) : Tx Stmt ApiError α := Tx.call s

structure RateQuestDto where
  score : ℤ
  comment : Option String := none

def rateTx (userId questId : Id) (dto : RateQuestDto) : Tx Stmt ApiError Unit := do
  tx (.ratingUpsert userId questId dto.score dto.comment)
  let agg ← tx (.ratingAggregate questId)
  tx (.questUpdate questId ⟨agg.avg, agg.count⟩)

def rate (userId questId : Id) (dto : RateQuestDto) : Request Unit := do
  let quest ← prisma (.questFindById questId)
  let _ ← Prog.expect quest (.notFound "Quest not found")
  Prog.transaction (rateTx userId questId dto)

def unrateTx (userId questId : Id) : Tx Stmt ApiError Unit := do
  let _ ← tx (.ratingDeleteMany userId questId)
  let agg ← tx (.ratingAggregate questId)
  tx (.questUpdate questId ⟨if agg.count > 0 then agg.avg else none, agg.count⟩)

def unrate (userId questId : Id) : Request Unit := do
  let quest ← prisma (.questFindById questId)
  let _ ← Prog.expect quest (.notFound "Quest not found")
  Prog.transaction (unrateTx userId questId)

end Ratings

end SideQuest
