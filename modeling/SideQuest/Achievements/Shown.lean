import SideQuest.Model.Stats
import SideQuest.Achievements.UnlockedOnce

-- The number of unlocked achievements on the profile, and the ones that the achievements
-- page shows as unlocked.

namespace SideQuest

open ReadCommitted

-- The row of an achievement that is not unlocked but has made some progress.
def UserAchievement.isProgressOnly (a : UserAchievement) : Bool := a.unlockedAt.isNone

-- Every row of `UserAchievement` is one of a definition that exists.
def World.DefinesAchievements (w : World) : Prop :=
  ∀ a ∈ w.userAchievements.rows, (w.achievements.find? a.achievementId).isSome

-- The foreign key is checked by every statement that creates a row.
theorem exec_creates_userAchievement {β : Type} {st : Stmt β} {w : World} {b : β} {ws : List Write}
    (h : Stmt.exec st w = .ok (b, ws)) {row : UserAchievement}
    (hrow : .userAchievementCreate row ∈ ws) : (w.achievements.find? row.achievementId).isSome := by
  cases st <;> simp only [Stmt.exec, ask, fail, Option.isNone_iff_eq_none] at h <;>
    grind [Option.isSome_iff_ne_none]

-- No request changes the definitions, whatever it does, or breaks the foreign key.
section ForeignKey

variable {definitions : Table Achievement.id}

structure OnlyDefined (definitions : Table Achievement.id) (w : World) : Prop where
  achievements : w.achievements = definitions
  defined : ∀ a ∈ w.userAchievements.rows, (definitions.find? a.achievementId).isSome

def createsDefined (definitions : Table Achievement.id) (wr : Write) : Prop :=
  ∀ row, wr = .userAchievementCreate row → (definitions.find? row.achievementId).isSome

theorem OnlyDefined.apply {w : World} {wr : Write} (h : OnlyDefined definitions w)
    (hwr : createsDefined definitions wr) : OnlyDefined definitions (w.apply wr) := by
  constructor
  · rw [← h.achievements]
    cases wr <;> rfl
  · intro a ha
    cases wr with
    | userAchievementCreate row =>
        rcases Table.mem_of_mem_insert ha with hold | rfl
        · exact h.defined a hold
        · exact hwr a rfl
    | userAchievementUpdate u id d =>
        obtain ⟨before, hbefore, hkey⟩ := List.mem_map.mp ha
        have hsame : a.achievementId = before.achievementId := by
          rw [← hkey]
          split <;> rfl
        rw [hsame]
        exact h.defined before hbefore
    | _ => exact h.defined a ha

theorem OnlyDefined.view {w : World} {ws : List Write} (h : OnlyDefined definitions w)
    (hws : ∀ wr ∈ ws, createsDefined definitions wr) : OnlyDefined definitions (view Stmt w ws) := by
  induction ws generalizing w with
  | nil => exact h
  | cons wr ws ih =>
      exact ih (h.apply (hws wr List.mem_cons_self)) fun wr' hwr' =>
        hws wr' (List.mem_cons_of_mem _ hwr')

def definedContract (definitions : Table Achievement.id) : Contract Stmt World Write :=
  .ofInv (fun s => OnlyDefined definitions s.db) Guard.none

theorem onlyDefined_of_reaches {w : World} {s : System Stmt World Write ApiError}
    (hw : w.DefinesAchievements)
    (h : System.Reaches (fun _ => True) Guard.none (System.init w) s) :
    OnlyDefined w.achievements s.store.db := by
  have hcommit : ∀ me (st : Store World Write) ws, OnlyDefined w.achievements st.db →
      (∀ wr ∈ ws, createsDefined w.achievements wr) →
        (definedContract w.achievements).rules.Commits me st ws := by
    intro me st ws hst hws
    refine ⟨?_, trivial⟩
    show OnlyDefined _ _
    rw [Store.commit_db]
    exact hst.view hws
  have hexec {γ : Type} (st : Stmt γ) {db : World} {b : γ} {ws : List Write}
      (hdb : OnlyDefined w.achievements db) (he : Stmt.exec st db = .ok (b, ws)) :
      ∀ wr ∈ ws, createsDefined w.achievements wr := by
    rintro _ hwr row rfl
    rw [← hdb.achievements]
    exact exec_creates_userAchievement he hwr
  refine (System.Reaches.safe (C := definedContract w.achievements) (fun p _ me st _ => ?_)
    (fun _ _ hst => ⟨⟨hst.achievements, hst.defined⟩, trivial⟩)
    (System.init_safe ⟨rfl, hw⟩) h).1.inv
  exact Rules.wp_any _ _ (fun hs hws => OnlyDefined.view hs hws) hexec (hcommit me) p st

end ForeignKey

namespace AchievementsService

variable {w : World} {userId : Id}

theorem unlockedAt_listForUser (w : World) (userId : Id) : (listForUser w userId).map
    UserAchievementDto.unlockedAt = w.achievements.rows.map fun a => w.unlockedAt userId a.id := by
  rw [listForUser, List.map_map]
  apply List.map_congr_left
  intro definition _
  rw [World.unlockedAt, Table.find?]
  show (List.find? _ (List.filter _ _)).bind _ = _
  rw [List.find?_filter]
  congr 2
  funext a
  simp [UserAchievement.key]

-- The page shows the rows that are unlocked, as each is one of a single definition.
theorem count_shown (h : w.DefinesAchievements) :
    (listForUser w userId).countP (fun entry => entry.unlockedAt.isSome) =
      w.userAchievements.count fun a => a.userId = userId ∧ a.unlockedAt.isSome := by
  have hentries : (listForUser w userId).countP (fun entry => entry.unlockedAt.isSome) =
      w.achievements.count fun a => (w.unlockedAt userId a.id).isSome := by
    have hmap := congrArg (List.countP Option.isSome) (unlockedAt_listForUser w userId)
    rwa [List.countP_map, List.countP_map] at hmap
  let share (a : Achievement) (row : UserAchievement) : ℕ :=
    if row.key = (userId, a.id) then (if row.unlockedAt.isSome then 1 else 0) else 0
  have hrow (a : Achievement) : (if (w.unlockedAt userId a.id).isSome then 1 else 0) =
      w.userAchievements.sum (share a) := by
    rw [Table.sum_single, World.unlockedAt]
    cases w.userAchievements.find? (userId, a.id) <;> rfl
  have hdefinition : ∀ row ∈ w.userAchievements.rows, (w.achievements.sum fun a => share a row) =
      if row.userId = userId ∧ row.unlockedAt.isSome then 1 else 0 := by
    intro row hmem
    obtain ⟨definition, hfound⟩ := Option.isSome_iff_exists.mp (h row hmem)
    have hsingle := Table.sum_single w.achievements row.achievementId fun _ =>
      if row.userId = userId ∧ row.unlockedAt.isSome then 1 else 0
    rw [hfound] at hsingle
    refine Eq.trans (Table.sum_congr fun a _ => ?_) hsingle
    by_cases hid : a.id = row.achievementId
    · by_cases hu : row.userId = userId <;> simp [share, UserAchievement.key, hid, hu]
    · have hne : ¬row.achievementId = a.id := fun h => hid h.symm
      simp [share, UserAchievement.key, hid, hne]
  rw [hentries, Table.count_eq_sum, Table.sum_congr fun a _ => hrow a, Table.sum_comm,
    Table.sum_congr hdefinition, Table.count_eq_sum]
  simp only [decide_eq_true_eq]

theorem count_rows (w : World) (userId : Id) :
    (w.userAchievements.count fun a => a.userId = userId) =
      (w.userAchievements.count fun a => a.userId = userId ∧ a.unlockedAt.isSome) +
        w.userAchievements.count fun a => a.userId = userId ∧ a.isProgressOnly := by
  rw [Table.count_eq_sum, Table.count_eq_sum, Table.count_eq_sum, ← Table.sum_add]
  apply Table.sum_congr
  intro a _
  by_cases hu : a.userId = userId <;> cases hat : a.unlockedAt <;>
    simp [UserAchievement.isProgressOnly, hu, hat]

theorem achievementsUnlocked_getStats {categoryName : String → String} {stats : UsersService.UserStats}
    (h : UsersService.getStats categoryName w userId = .ok stats) :
    stats.achievementsUnlocked = w.userAchievements.count fun a => a.userId = userId := by
  unfold UsersService.getStats at h
  split at h
  · cases h
  · cases h
    rfl

-- The profile counts what the page shows exactly if none of the user's rows only records
-- progress.
theorem achievementsUnlocked_iff_shown {s : System Stmt World Write ApiError}
    {categoryName : String → String} {stats : UsersService.UserStats} (hw : w.DefinesAchievements)
    (h : System.Reaches (fun _ => True) Guard.none (System.init w) s)
    (hstats : UsersService.getStats categoryName s.store.db userId = .ok stats) :
    stats.achievementsUnlocked =
        (listForUser s.store.db userId).countP (fun entry => entry.unlockedAt.isSome) ↔
      ∀ a ∈ s.store.db.userAchievements.rows, a.userId = userId → a.isProgressOnly = false := by
  have honly := onlyDefined_of_reaches hw h
  have hdefined : s.store.db.DefinesAchievements := by
    intro a ha
    rw [honly.achievements]
    exact honly.defined a ha
  rw [achievementsUnlocked_getStats hstats, count_shown hdefined, count_rows, Nat.add_eq_left,
    Table.count, List.countP_eq_zero]
  simp only [decide_eq_true_eq, not_and, Bool.not_eq_true]

theorem eq_ok_of_toOption {α β : Type} {answer : Except α β} {b : β}
    (h : answer.toOption = some b) : answer = .ok b := by
  cases answer with
  | error e => cases h
  | ok b' => exact congrArg Except.ok (Option.some.inj h)

-- An evaluation unlocks the one achievement there is.
theorem achievementsUnlocked_settler : ∃ s : System Stmt World Write ApiError, ∃ stats,
    UsersService.getStats id s.store.db 1 = .ok stats ∧
      (stats.achievementsUnlocked =
          (listForUser s.store.db 1).countP (fun entry => entry.unlockedAt.isSome) ↔
        ∀ a ∈ s.store.db.userAchievements.rows, a.userId = 1 → a.isProgressOnly = false) ∧
        stats.achievementsUnlocked = 1 := by
  have hnone : settler.DefinesAchievements := fun a ha => absurd ha List.not_mem_nil
  obtain ⟨s, h, hobs⟩ := System.exists_reaches_of_interleave (fun _ => True) Guard.none
    (System.init settler) [evaluateForUser 1] [0, 0, 0, 0, 0, 0, 0, 0, 0, 0]
    (fun s => (UsersService.getStats id s.store.db 1).toOption.map
      UsersService.UserStats.achievementsUnlocked) (some 1) (fun _ _ => trivial) (by decide +kernel)
  obtain ⟨stats, hfound, hcount⟩ := Option.map_eq_some_iff.mp hobs
  have hstats : UsersService.getStats id s.store.db 1 = .ok stats :=
    eq_ok_of_toOption hfound
  exact ⟨s, stats, hstats, achievementsUnlocked_iff_shown hnone h hstats, hcount⟩

-- A user with one completed quest, where an achievement takes two.
def halfway : World :=
  { settler with
    quests := Table.empty.insert { id := 1, status := .PUBLISHED }
    completions := Table.empty.insert
      { userId := 1, questId := 1, status := .COMPLETED, startedAt := 0, completedAt := some 0 }
    achievements := Table.empty.insert
      { id := 1, slug := "regular", type := .QUEST_COUNT
        criteria := .obj [("minQuests", .num 2)], targetValue := some 2 } }

-- The evaluation records one quest of two, and the profile counts that as unlocked.
theorem progress_counts_as_unlocked : ∃ s : System Stmt World Write ApiError, ∃ stats,
    System.Reaches Evaluates Guard.none (System.init halfway) s ∧
      UsersService.getStats id s.store.db 1 = .ok stats ∧ stats.achievementsUnlocked = 1 ∧
        (listForUser s.store.db 1).countP (fun entry => entry.unlockedAt.isSome) = 0 := by
  obtain ⟨s, h, hobs⟩ := System.exists_reaches_of_interleave Evaluates Guard.none
    (System.init halfway) [evaluateForUser 1] [0, 0, 0, 0]
    (fun s => ((UsersService.getStats id s.store.db 1).toOption.map
      UsersService.UserStats.achievementsUnlocked,
        (listForUser s.store.db 1).countP (fun entry => entry.unlockedAt.isSome))) (some 1, 0)
    (by simp [Evaluates]) (by decide +kernel)
  obtain ⟨hprofile, hpage⟩ := Prod.mk.inj hobs
  obtain ⟨stats, hfound, hcount⟩ := Option.map_eq_some_iff.mp hprofile
  exact ⟨s, stats, h, eq_ok_of_toOption hfound, hcount, hpage⟩

end AchievementsService

end SideQuest
