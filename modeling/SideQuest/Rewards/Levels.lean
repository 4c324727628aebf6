import SideQuest.Achievements.UnlockedOnce

-- The stored level is the level of the stored XP, as long as no finalization computes
-- it from an outdated total.

namespace SideQuest

open ReadCommitted QuestsService AchievementsService

-- The user row as the transaction has last read it.
def lastRead (id : Id) : List (Seen Stmt) → Option User
  | [] => none
  | ⟨.userFindUnique id', found⟩ :: rest => if id' = id then found else lastRead id rest
  | _ :: rest => lastRead id rest

-- The transaction has read the XP that the user has now.
def ReadsCurrentXp (id : Id) (seen : List (Seen Stmt)) (w : World) : Prop :=
  (lastRead id seen).map User.xp = (w.users.find? id).map User.xp

instance (id : Id) (seen : List (Seen Stmt)) (w : World) : Decidable (ReadsCurrentXp id seen w) :=
  inferInstanceAs (Decidable (_ = _))

-- An update that adds XP and stores a level finds the XP that its transaction has read.
def levelsFromCurrentXp : Guard Stmt World := fun seen _ st w =>
  match st with
  | .userUpdate id d =>
      match d.xp, d.level with
      | .increment _, some _ => ReadsCurrentXp id seen w
      | _, _ => true
  | _ => true

def LevelsMatch (w : World) : Prop :=
  ∀ id user, w.users.find? id = some user → user.level = levelFromXp user.xp

theorem LevelsMatch.of_users {w w' : World} (h : LevelsMatch w) (husers : w'.users = w.users) :
    LevelsMatch w' := by
  rw [LevelsMatch, husers]
  exact h

-- Only one user has changed.
theorem LevelsMatch.of_user {w w' : World} (h : LevelsMatch w) {userId : Id}
    (hothers : ∀ id, id ≠ userId → w'.users.find? id = w.users.find? id)
    (huser : ∀ user, w'.users.find? userId = some user → user.level = levelFromXp user.xp) :
    LevelsMatch w' := by
  intro id user hfound
  by_cases hid : id = userId
  · subst hid
    exact huser user hfound
  · exact h id user (hothers id hid ▸ hfound)

abbrev levelContract : Contract Stmt World Write :=
  .ofInv (fun s => LevelsMatch s.db) levelsFromCurrentXp

theorem levels_commit {s : Store World Write} {me : ℕ} {ws : List Write}
    (h : LevelsMatch (view Stmt s.db ws)) : levelContract.rules.Commits me s ws := by
  refine ⟨?_, trivial⟩
  show LevelsMatch _
  rwa [Store.commit_db]

section Finalizing

variable {me : ℕ} {host : Host} {userId questId : Id} {quest : QuestWithLocations}
  {proof : Option CompletionProof} {seen : List (Seen Stmt)} {ws : List Write}
  {s s' : Store World Write}

-- The user row at the commit has the XP that the finalization has read.
theorem xp_read_of_finalizing
    (t : Finalizing levelContract.rules me host userId questId quest proof seen ws s s')
    (hws : ∀ db : World, ((view Stmt db ws).users.find? userId).map User.xp =
      (db.users.find? userId).map User.xp) :
    (s'.db.users.find? userId).map User.xp = some t.user.xp := by
  have hguard : ReadsCurrentXp userId
      (⟨.completionUpdate userId questId (completedData quest.quest proof t.completion t.now), ()⟩ ::
        ⟨.completionFindUnique userId questId, some t.completion⟩ ::
        ⟨.now, t.now⟩ :: ⟨.userFindUnique userId, some t.user⟩ :: seen)
      (view Stmt t.atReward.db (ws ++ [claimWrite userId questId quest proof t.completion t.now])) :=
    of_decide_eq_true t.reward_guard
  rw [ReadsCurrentXp, view_append] at hguard
  have hread : some t.user.xp = ((view Stmt t.atReward.db ws).users.find? userId).map User.xp := by
    simpa [lastRead, World.apply] using hguard
  rw [hread, hws, t.same_user]

theorem levels_finalizing (h : LevelsMatch s'.db)
    (t : Finalizing levelContract.rules me host userId questId quest proof seen ws s s')
    (hws : ∀ db : World, ((view Stmt db ws).users.find? userId).map User.xp =
      (db.users.find? userId).map User.xp)
    (hothers : ∀ id, id ≠ userId →
      (view Stmt s'.db ws).users.find? id = s'.db.users.find? id) :
    LevelsMatch (view Stmt s'.db (ws ++ t.writes)) := by
  have hxp := xp_read_of_finalizing t hws
  rw [← hws] at hxp
  obtain ⟨row, hrow, hread⟩ := Option.map_eq_some_iff.mp hxp
  apply h.of_user
  · intro id hid
    rw [view_append, ← hothers id hid]
    exact Table.find?_modify_ne _ _ (UserUpdate.id_apply _) hid
  · intro user hfound
    rw [view_append, t.view_user, hrow] at hfound
    cases hfound
    simp [UserUpdate.apply, rewardData, FieldUpdate.apply, hread]

end Finalizing

theorem levels_checkIn {w : World} (h : LevelsMatch w) {R : Rules Stmt} {me : ℕ}
    {userId questId locationId : Id} {body : QuestCheckInBody} {s s' : Store World Write}
    (t : CheckingIn R me userId questId locationId body s s') :
    LevelsMatch (view Stmt w t.writes) := by
  apply h.of_user
  · exact fun id hid => Table.find?_modify_ne _ _ (UserUpdate.id_apply _) hid
  · intro user hfound
    rw [t.view_user] at hfound
    obtain ⟨before, hbefore, rfl⟩ := Option.map_eq_some_iff.mp hfound
    exact h userId before hbefore

theorem questCommits_levels (me : ℕ) (host : Host) (userId questId : Id) :
    QuestCommits levelContract.rules me host userId questId where
  emits _ _ h := levels_commit (LevelsMatch.of_users h rfl)
  again _ _ _ h _ := levels_commit (LevelsMatch.of_users h rfl)
  new _ h _ _ := levels_commit (LevelsMatch.of_users h rfl)
  finalize quest proof s s' t _ :=
    levels_commit (levels_finalizing (Rules.rely_inv _ t.to_commit) t (fun _ => rfl)
      fun _ _ => rfl)
  step quest locationId body s s₁ s' t _ _ _ hr :=
    levels_commit (levels_checkIn (Rules.rely_inv _ hr) t)
  last quest locationId body seen s s₁ s' t fin _ _ _ := by
    refine levels_commit (levels_finalizing (Rules.rely_inv _ fin.to_commit) fin (fun db => ?_)
      fun id hid => Table.find?_modify_ne _ _ (UserUpdate.id_apply _) hid)
    rw [t.view_user, Option.map_map]
    rfl

theorem levels_paying {R : Rules Stmt} {me : ℕ} {userId : Id} {achievement : Achievement}
    {s s₁ s' : Store World Write} (h : LevelsMatch s'.db)
    (t : Unlocking R me userId achievement s s₁) (p : Paying R me userId achievement s₁ s') :
    LevelsMatch (view Stmt s'.db
      [t.write, bonusWrite userId achievement, levelWrite userId achievement p.user]) := by
  apply h.of_user
  · intro id hid
    refine (Table.find?_modify_ne _ _ (UserUpdate.id_apply _) hid).trans ?_
    refine (Table.find?_modify_ne _ _ (UserUpdate.id_apply _) hid).trans ?_
    rw [apply_eq, t.users_apply]
  · intro user hfound
    have hrow : (s'.db.apply t.write).users.find? userId = some p.user := by
      rw [t.users_apply]
      exact p.same_user
    simp only [view_cons, view_nil, apply_eq, World.find?_userUpdate, if_true, hrow,
      Option.map_some, Option.some.injEq] at hfound
    subst hfound
    simp [UserUpdate.apply, FieldUpdate.apply]

theorem achievementCommits_levels (me : ℕ) (userId : Id) :
    AchievementCommits levelContract.rules me userId where
  levelUp _ _ _ h := levels_commit (LevelsMatch.of_users h rfl)
  free _ _ _ s' t _ _ _ _ :=
    levels_commit (LevelsMatch.of_users (Rules.rely_inv _ t.to_next) (t.users_apply s'.db))
  paid _ _ _ _ _ t p _ _ _ _ :=
    levels_commit (levels_paying (Rules.rely_inv _ p.to_commit) t p)
  unlocked _ _ _ _ _ _ _ _ _ hr := levels_commit (LevelsMatch.of_users (Rules.rely_inv _ hr) rfl)
  progress _ _ _ _ h _ := levels_commit (LevelsMatch.of_users h rfl)
  create _ _ _ h _ _ := levels_commit (LevelsMatch.of_users h rfl)

-- The requests that complete quests and unlock achievements.
def RewardRequest (host : Host) (p : Request Unit) : Prop := AnyQuestRequest host p ∨ Evaluates p

-- As long as every finalization computes the level from the user's current XP, the
-- stored levels are the levels of the stored XP.
theorem levelsMatch_of_reaches (host : Host) {w : World} (hw : LevelsMatch w)
    {s : System Stmt World Write ApiError}
    (h : System.Reaches (RewardRequest host) levelsFromCurrentXp (System.init w) s) :
    LevelsMatch s.store.db := by
  have hsafe := System.Reaches.safe (C := levelContract) (fun p hp me st _ => ?_)
    (fun a st hst => ⟨LevelsMatch.of_users hst rfl, trivial⟩) (System.init_safe hw) h
  · exact hsafe.1.inv
  · rcases hp with ⟨userId, questId, hp⟩ | ⟨userId, rfl⟩
    · exact hp.wp (questCommits_levels me host userId questId)
    · exact wp_evaluateForUser (achievementCommits_levels me userId)

-- The hiker has started a second quest, of 300 XP.
def onTwoTrails : World :=
  { onTheTrail with
    quests := onTheTrail.quests.insert { id := 2, status := .PUBLISHED, xpReward := 300 }
    completions := onTheTrail.completions.insert { userId := 1, questId := 2, startedAt := 0 } }

-- Both quests completed at the same time: the second transaction begins once the first has
-- committed.
theorem levelsMatch_two_completes : ∃ s : System Stmt World Write ApiError,
    LevelsMatch s.store.db ∧
      (s.store.db.users.find? 1).map (fun u => (u.xp, u.level)) = some (400, 3) := by
  have hps : ∀ p ∈ [(complete .plain 1 1 none).void, (complete .plain 1 2 none).void],
      RewardRequest .plain p := by
    simp only [List.forall_mem_cons]
    exact ⟨Or.inl ⟨1, 1, .complete none⟩, Or.inl ⟨1, 2, .complete none⟩, by simp⟩
  obtain ⟨s, hs, hobs⟩ := System.exists_reaches_of_interleave (RewardRequest .plain)
    levelsFromCurrentXp (System.init onTwoTrails)
    [(complete .plain 1 1 none).void, (complete .plain 1 2 none).void]
    [0, 1, 0, 1, 0, 0, 0, 0, 0, 0, 0, 1, 1, 1, 1, 1, 1, 1]
    (fun s => (s.store.db.users.find? 1).map fun u => (u.xp, u.level)) (some (400, 3))
    hps (by decide +kernel)
  have hw : LevelsMatch onTwoTrails := by
    intro id user hfound
    obtain rfl : user = hiker := by
      simpa [onTwoTrails, onTheTrail, Table.insert, Table.empty] using Table.mem_of_find? hfound
    decide +kernel
  exact ⟨s, levelsMatch_of_reaches .plain hw hs, hobs⟩

-- Both finalizations read 0 XP before either commits: 400 XP, but the level of 300.
theorem level_of_outdated_xp : ∃ s : System Stmt World Write ApiError,
    System.Reaches (RewardRequest .plain) Guard.none (System.init onTwoTrails) s ∧
      (s.store.db.users.find? 1).map (fun u => (u.xp, u.level)) = some (400, 2) ∧
      levelFromXp 400 = 3 ∧ ¬LevelsMatch s.store.db := by
  have hps : ∀ p ∈ [(complete .plain 1 1 none).void, (complete .plain 1 2 none).void],
      RewardRequest .plain p := by
    simp only [List.forall_mem_cons]
    exact ⟨Or.inl ⟨1, 1, .complete none⟩, Or.inl ⟨1, 2, .complete none⟩, by simp⟩
  obtain ⟨s, hs, hobs⟩ := System.exists_reaches_of_interleave (RewardRequest .plain)
    Guard.none (System.init onTwoTrails)
    [(complete .plain 1 1 none).void, (complete .plain 1 2 none).void]
    [0, 0, 0, 0, 0, 0, 1, 1, 1, 1, 0, 0, 0, 1, 1, 1, 1, 1]
    (fun s => (s.store.db.users.find? 1).map fun u => (u.xp, u.level)) (some (400, 2))
    hps (by decide +kernel)
  refine ⟨s, hs, hobs, by decide +kernel, fun hmatch => ?_⟩
  obtain ⟨user, hfound, huser⟩ := Option.map_eq_some_iff.mp hobs
  obtain ⟨hxp, hlevel⟩ := Prod.mk.inj huser
  have hwrong := hmatch 1 user hfound
  rw [hxp, hlevel] at hwrong
  exact absurd hwrong (by decide +kernel)

end SideQuest
