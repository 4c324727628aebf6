import SideQuest.Model.QuestEdits
import SideQuest.Model.Locks
import SideQuest.Lib.Parts

-- `QuestsService.update` next to the requests of the players, statement by statement.

namespace SideQuest

namespace Editing

open QuestsService

-- What `prisma.quest.update` stores: the fields of the DTO and, maybe, `publishedAt`.
structure QuestEdit where
  questId : Id
  dto : UpdateQuestDto
  category : Option QuestCategory
  publishedAt : Option Time

def QuestEdit.columns (edit : QuestEdit) (old : QuestColumns) : QuestColumns :=
  { edit.dto.applyColumns 0 old with publishedAt := edit.publishedAt <|> old.publishedAt }

inductive Write where
  | base (wr : SideQuest.Write)
  | questUpdate (edit : QuestEdit)

inductive Lock where
  | base (l : SideQuest.Lock)
  | quest (id : Id)
  deriving DecidableEq

def Write.locks : Write → List Lock
  | .base wr => wr.locks.map .base
  | .questUpdate edit => [.quest edit.questId]

inductive EditStmt : Type → Type where
  | questFindById (id : Id) : EditStmt (Option (Quest × QuestColumns))
  | questUpdate (id : Id) (dto : UpdateQuestDto) (publishedAt : Option Time) :
      EditStmt (Quest × QuestColumns)

-- A statement of the players' requests, or one of `update`.
inductive Stmt (β : Type) : Type where
  | base (st : SideQuest.Stmt β)
  | edit (st : EditStmt β)

def apply (s : Editorial) : Write → Editorial
  | .base wr => { s with world := s.world.apply wr }
  | .questUpdate edit =>
      let quests := s.world.quests.modify edit.questId (edit.dto.apply edit.category) fun _ => rfl
      { s with
        world := { s.world with quests }
        columns := Function.update s.columns edit.questId
          (edit.columns (s.columns edit.questId)) }

def EditStmt.exec {β : Type} : EditStmt β → Editorial → Except ApiError (β × List Write)
  | .questFindById id, s => .ok ((s.world.quests.find? id).map fun q => (q, s.columns id), [])
  | .questUpdate id dto publishedAt, s =>
      match s.world.quests.find? id with
      | none => .error (.prisma .P2025)
      | some quest =>
          match connectedCategory s.categories dto.categoryId with
          | .error e => .error e
          | .ok category =>
              let edit : QuestEdit := ⟨id, dto, category, publishedAt⟩
              .ok ((dto.apply category quest, edit.columns (s.columns id)), [.questUpdate edit])

def Stmt.exec {β : Type} : Stmt β → Editorial → Except ApiError (β × List Write)
  | .base st, s => (st.exec s.world).map fun answered => (answered.1, answered.2.map .base)
  | .edit st, s => st.exec s

instance : Backend Stmt Editorial Write Lock ApiError ℕ where
  exec := Stmt.exec
  apply := apply
  locks := Write.locks
  happen elapsed s := { s with world := Backend.happen SideQuest.Stmt elapsed s.world }

def Lock.same : Lock → Editorial → Editorial → Prop
  | .base l, s, s' => l.same s.world s'.world
  | .quest id, s, s' =>
      s'.world.quests.find? id = s.world.quests.find? id ∧ s'.columns id = s.columns id

theorem quests_apply (w : World) (wr : SideQuest.Write) : (w.apply wr).quests = w.quests := by
  cases wr <;> rfl

theorem Lock.same_apply {l : Lock} (s : Editorial) {wr : Write} (h : l ∉ wr.locks) :
    l.same s (apply s wr) := by
  cases wr with
  | base wr =>
      cases l with
      | base l =>
          have hfree : l ∉ wr.locks := fun hl => h (List.mem_map_of_mem hl)
          exact SideQuest.Lock.same_apply s.world hfree
      | quest id => exact ⟨congrArg (·.find? id) (quests_apply s.world wr), rfl⟩
  | questUpdate edit =>
      cases l with
      | base l => cases l <;> first | exact rfl | exact fun hn => hn
      | quest id =>
          have hne : id ≠ edit.questId := fun he => h (he ▸ List.mem_cons_self)
          exact ⟨Table.find?_modify_ne s.world.quests (edit.dto.apply edit.category) (fun _ => rfl) hne,
            Function.update_of_ne hne _ _⟩

instance : ReadCommitted.LawfulBackend Stmt where
  same := Lock.same
  same_refl l s := by
    cases l with
    | base l => exact SideQuest.Lock.same_refl l s.world
    | quest id => exact ⟨rfl, rfl⟩
  same_trans {l _ _ _} h h' := by
    cases l with
    | base l => exact SideQuest.Lock.same_trans h h'
    | quest id => exact ⟨h'.1.trans h.1, h'.2.trans h.2⟩
  same_apply := Lock.same_apply
  same_happen l s elapsed := by
    cases l with
    | base l =>
        have hworld : ReadCommitted.LawfulBackend.same SideQuest.Stmt l s.world
            (Backend.happen SideQuest.Stmt elapsed s.world) :=
          ReadCommitted.LawfulBackend.same_happen l s.world elapsed
        exact hworld
    | quest id => exact ⟨rfl, rfl⟩

-- The requests of the players see the editors' database through its world.
def players : ReadCommitted.Part SideQuest.Stmt Stmt where
  stmt := .base
  write := .base
  get := Editorial.world
  put s w := { s with world := w }
  get_put _ _ := rfl
  put_put _ _ _ := rfl
  put_get _ := rfl
  exec_stmt _ _ := rfl
  apply_write _ _ := rfl

abbrev Request (α : Type) := Prog Stmt ApiError α

-- `data.publishedAt = new Date()`, when the update publishes a quest that was not.
def publishedAtOf (status : Option QuestStatus) (publishedAt : Option Time) :
    Request (Option Time) :=
  if status = some .PUBLISHED ∧ publishedAt = none then do
    let now ← Prog.call (.base .now)
    return some now
  else return none

def update (actor : Actor) (questId : Id) (dto : UpdateQuestDto) :
    Request (Quest × QuestColumns) := do
  let found ← Prog.call (.edit (.questFindById questId))
  let found ← Prog.expect found (.notFound "Quest not found")
  match assertCanMutate actor found.2.authorId with
  | .error e => .throw e
  | .ok () => do
      let publishedAt ← publishedAtOf dto.status found.2.publishedAt
      Prog.call (.edit (.questUpdate questId dto publishedAt))

theorem publishedAtOf_alone (status : Option QuestStatus) (publishedAt : Option Time)
    (s : Editorial) : (publishedAtOf status publishedAt).alone s =
      (.ok (if status = some .PUBLISHED ∧ publishedAt = none then some s.world.clock else none), s) := by
  unfold publishedAtOf
  split <;> rfl

-- The columns come out the same where the update has read what it writes over.
theorem QuestEdit.columns_eq (dto : UpdateQuestDto) (questId : Id)
    (category : Option QuestCategory) (old : QuestColumns) (now : Time) :
    QuestEdit.columns ⟨questId, dto, category,
      if dto.status = some .PUBLISHED ∧ old.publishedAt = none then some now else none⟩ old =
        dto.applyColumns now old := by
  unfold columns UpdateQuestDto.applyColumns
  split <;> simp

-- On its own it is the `update` that runs in one go.
theorem update_alone (actor : Actor) (questId : Id) (dto : UpdateQuestDto) (s : Editorial) :
    (update actor questId dto).alone s =
      match QuestsService.update actor questId dto s with
      | .ok (answer, s') => (.ok answer, s')
      | .error e => (.error e, s) := by
  unfold update QuestsService.update
  cases hquest : s.world.quests.find? questId with
  | none =>
      have hfind : Backend.exec (Stmt.edit (.questFindById questId)) s = .ok (none, []) := by
        simp [Backend.exec, Stmt.exec, EditStmt.exec, hquest]
      rw [Prog.alone_query hfind, Prog.alone_expect_none rfl]
  | some quest =>
      have hfind : Backend.exec (Stmt.edit (.questFindById questId)) s =
          .ok (some (quest, s.columns questId), []) := by
        simp [Backend.exec, Stmt.exec, EditStmt.exec, hquest]
      rw [Prog.alone_query hfind, Prog.alone_expect rfl]
      dsimp only
      cases assertCanMutate actor (s.columns questId).authorId with
      | error e => rfl
      | ok _ =>
          dsimp only
          rw [Prog.alone_bind (publishedAtOf_alone _ _ s)]
          cases hcategory : connectedCategory s.categories dto.categoryId with
          | error e =>
              simp only [Prog.call, Prog.alone, Backend.exec, Stmt.exec, EditStmt.exec, hquest,
                hcategory]
              rfl
          | ok category =>
              simp only [Prog.call, Prog.alone, Backend.exec, Stmt.exec, EditStmt.exec, hquest,
                hcategory, QuestEdit.columns_eq]
              simp only [ReadCommitted.view, Backend.apply, apply, List.foldl_cons, List.foldl_nil,
                QuestEdit.columns_eq]
              rfl

end Editing

end SideQuest
