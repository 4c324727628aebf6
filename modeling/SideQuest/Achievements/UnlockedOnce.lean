import SideQuest.Achievements.Requests
import SideQuest.Rewards.Awards
import SideQuest.Lib.Log
import SideQuest.Lib.Races

-- Unlocking an achievement, over every interleaving of evaluations: once, if no other
-- unlock comes between the check of one and its upsert.

namespace SideQuest

open ReadCommitted

namespace AchievementsService

-- The commit of an unlock.
def unlocks (userId achievementId : Id) (entry : ℕ × List Write) : Bool :=
  entry.2.any fun
    | .userAchievementUpdate u a d => u = userId ∧ a = achievementId ∧ d.unlockedAt.isSome
    | .userAchievementCreate row =>
        row.userId = userId ∧ row.achievementId = achievementId ∧ row.unlockedAt.isSome
    | _ => false

-- The emission of AchievementUnlocked.
def announces (userId achievementId : Id) (entry : ℕ × List Write) : Bool :=
  entry.2.any fun
    | .emit (.achievementUnlocked u a _) => u = userId ∧ a = achievementId
    | _ => false

-- An achievement that the request has read as locked still is when it unlocks it.
def upsertsLocked : RaceGuard Stmt World Write := fun seen move w =>
  match move with
  | .run (.userAchievementUpsertUnlocked u a _ _) => seen.all fun
      | ⟨.userAchievementFindUnique u' a', row⟩ =>
          (u', a') ≠ (u, a) ∨ (row.bind UserAchievement.unlockedAt).isSome ∨ ¬Unlocked u a w
      | _ => true
  | _ => true

-- What an unlock that has lost no race finds.
def findsLocked : Guard Stmt World := fun _ _ st w =>
  match st with
  | .userAchievementUpsertUnlocked u a _ _ => ¬Unlocked u a w
  | _ => true

-- Every achievement is unlocked, paid for and announced at most once.
structure UnlockedOnce (w : World) (s : Store World Write) : Prop where
  once : ∀ userId achievementId, s.wal.countP (unlocks userId achievementId) ≤ 1
  announced : ∀ userId achievementId, s.wal.countP (announces userId achievementId) ≤ 1
  xp : ∀ userId, s.db.xpOf userId = w.xpOf userId +
    w.achievements.sum fun a => s.wal.countP (unlocks userId a.id) * max 0 a.xpBonus

structure UnlockInv (w : World) (s : Store World Write) : Prop where
  achievements_eq : s.db.achievements = w.achievements
  once : ∀ userId achievementId, s.wal.countP (unlocks userId achievementId) ≤ 1
  spent : ∀ userId achievementId, 0 < s.wal.countP (unlocks userId achievementId) →
    Unlocked userId achievementId s.db
  -- A thread announces after it has unlocked.
  own : ∀ me userId achievementId, (s.own me).countP (announces userId achievementId) ≤
    (s.own me).countP (unlocks userId achievementId)
  xp : ∀ userId, s.db.xpOf userId = w.xpOf userId +
    w.achievements.sum fun a => s.wal.countP (unlocks userId a.id) * max 0 a.xpBonus

-- What is unlocked stays unlocked, at the same time.
def KeepsUnlocked (w w' : World) : Prop :=
  ∀ userId achievementId t, w.unlockedAt userId achievementId = some t →
    w'.unlockedAt userId achievementId = some t

def unlockContract (w : World) : RaceContract Stmt World Write where
  inv := UnlockInv w
  guar s s' := KeepsUnlocked s.db s'.db
  commit _ _ := True
  guard := upsertsLocked
  guar_refl _ _ _ _ h := h
  guar_trans h h' u a t ht := h' u a t (h u a t ht)
  commit_nil _ := trivial

abbrev unlockRules (w : World) : Rules Stmt := (unlockContract w).rulesUnder findsLocked

theorem view_achievements (db : World) (ws : List Write) :
    (view Stmt db ws).achievements = db.achievements := by
  induction ws generalizing db with
  | nil => rfl
  | cons wr ws ih => rw [view_cons, ih]; cases wr <;> rfl

variable {w : World} {s : Store World Write}

-- What one more commit must establish.
theorem UnlockInv.commit (h : UnlockInv w s) (me : ℕ) {wr : Write} {ws : List Write}
    (hkeeps : KeepsUnlocked s.db (view Stmt s.db (wr :: ws)))
    (hopen : ∀ u a, unlocks u a (me, wr :: ws) = true →
      ¬Unlocked u a s.db ∧ Unlocked u a (view Stmt s.db (wr :: ws)))
    (hown : ∀ u a, (s.own me).countP (announces u a) + [(me, wr :: ws)].countP (announces u a) ≤
      (s.own me).countP (unlocks u a) + [(me, wr :: ws)].countP (unlocks u a))
    (hxp : ∀ u, (view Stmt s.db (wr :: ws)).xpOf u = s.db.xpOf u +
      w.achievements.sum fun a => [(me, wr :: ws)].countP (unlocks u a.id) * max 0 a.xpBonus) :
    (unlockRules w).Commits me s (wr :: ws) := by
  refine ⟨⟨?_, fun u a => ?_, fun u a hpos => ?_, fun i u a => ?_, fun u => ?_⟩, ?_⟩
  · rw [Store.commit_db, view_achievements]
    exact h.achievements_eq
  · rw [Store.commit_wal_cons, List.countP_append, List.countP_singleton]
    split
    · rename_i hu
      have hnone : ¬0 < s.wal.countP (unlocks u a) := fun hpos => (hopen u a hu).1 (h.spent u a hpos)
      omega
    · exact h.once u a
  · rw [Store.commit_wal_cons, List.countP_append, List.countP_singleton] at hpos
    rw [Store.commit_db]
    by_cases hu : unlocks u a (me, wr :: ws) = true
    · exact (hopen u a hu).2
    · rw [if_neg hu, Nat.add_zero] at hpos
      obtain ⟨t, ht⟩ := Option.isSome_iff_exists.mp (h.spent u a hpos)
      exact Option.isSome_of_eq_some (hkeeps u a t ht)
  · by_cases hi : i = me
    · subst hi
      rw [Store.own_commit_self, List.countP_append, List.countP_append]
      exact hown u a
    · rw [Store.own_commit_ne s (Ne.symm hi)]
      exact h.own i u a
  · rw [Store.commit_db, hxp, h.xp, Int.add_assoc, ← Table.sum_add]
    refine congrArg (w.xpOf u + ·) (Table.sum_congr fun a _ => ?_)
    rw [Store.commit_wal_cons, List.countP_append]
    push_cast
    ring
  · intro u a t ht
    rw [Store.commit_db]
    exact hkeeps u a t ht

-- Writes that unlock nothing, and announce only what the thread has unlocked.
theorem UnlockInv.commit_neutral (h : UnlockInv w s) (me : ℕ) {wr : Write}
    (hkeeps : KeepsUnlocked s.db (s.db.apply wr))
    (hunlocks : ∀ u a, unlocks u a (me, [wr]) = false)
    (hannounces : ∀ u a, announces u a (me, [wr]) = true →
      (s.own me).countP (announces u a) < (s.own me).countP (unlocks u a))
    (hxp : ∀ u, (s.db.apply wr).xpOf u = s.db.xpOf u) :
    (unlockRules w).Commits me s [wr] := by
  refine UnlockInv.commit h me (hkeeps : KeepsUnlocked s.db (view Stmt s.db [wr])) ?_ ?_ ?_
  · exact fun u a hu => absurd ((hunlocks u a).symm.trans hu) Bool.false_ne_true
  · intro u a
    rw [List.countP_singleton, List.countP_singleton, hunlocks]
    by_cases ha : announces u a (me, [wr]) = true
    · simpa [ha, Nat.add_one_le_iff] using hannounces u a ha
    · simpa [ha] using h.own me u a
  · intro u
    have hzero : (w.achievements.sum fun a =>
        ([(me, [wr])].countP (unlocks u a.id) : ℤ) * max 0 a.xpBonus) = 0 := by
      simp [hunlocks, Table.sum]
    rw [hzero, Int.add_zero]
    exact hxp u

-- Updates of the user are no unlocks, no events and leave the achievements alone.
section UserUpdates

variable {userId : Id} {rest : List Write} (hrest : ∀ wr ∈ rest, ∃ d, wr = .userUpdate userId d)

include hrest

theorem userAchievements_userUpdates (db : World) :
    (view Stmt db rest).userAchievements = db.userAchievements := by
  induction rest generalizing db with
  | nil => rfl
  | cons wr rest ih =>
      obtain ⟨d, rfl⟩ := hrest wr List.mem_cons_self
      rw [view_cons, ih fun wr' hwr' => hrest wr' (List.mem_cons_of_mem _ hwr')]
      rfl

theorem unlocks_userUpdates (u a : Id) (me : ℕ) : unlocks u a (me, rest) = false := by
  rw [unlocks, List.any_eq_false]
  intro wr hwr
  obtain ⟨d, rfl⟩ := hrest wr hwr
  simp

theorem announces_userUpdates (u a : Id) (me : ℕ) : announces u a (me, rest) = false := by
  rw [announces, List.any_eq_false]
  intro wr hwr
  obtain ⟨d, rfl⟩ := hrest wr hwr
  simp

end UserUpdates

section Unlock

variable {R : Rules Stmt} {me : ℕ} {userId : Id} {achievement : Achievement}
  {s₀ s₁ : Store World Write} {rest : List Write}
  (t : Unlocking R me userId achievement s₀ s₁)
  (hrest : ∀ wr ∈ rest, ∃ d, wr = .userUpdate userId d)

include hrest

theorem Unlocking.unlocks_iff (u a : Id) (i : ℕ) :
    unlocks u a (i, t.write :: rest) = true ↔ userId = u ∧ achievement.id = a := by
  have hnone := unlocks_userUpdates hrest u a i
  rw [unlocks] at hnone
  rw [unlocks, List.any_cons, hnone, Bool.or_false]
  rcases t.upsert with ⟨_, _, hw⟩ | ⟨_, _, hw⟩ <;> rw [hw] <;> simp

theorem Unlocking.announces_eq (u a : Id) (i : ℕ) :
    announces u a (i, t.write :: rest) = false := by
  have hnone := announces_userUpdates hrest u a i
  rw [announces] at hnone
  rw [announces, List.any_cons, hnone, Bool.or_false]
  rcases t.upsert with ⟨_, _, hw⟩ | ⟨_, _, hw⟩ <;> rw [hw]

end Unlock

-- An unlocking transaction that found the achievement locked.
theorem UnlockInv.commit_unlock {me : ℕ} {userId : Id} {achievement : Achievement}
    {s₀ s₁ : Store World Write} {rest : List Write} (h : UnlockInv w s)
    (t : Unlocking (unlockRules w) me userId achievement s₀ s₁)
    (hsame : s.db.userAchievements.find? (userId, achievement.id) =
      t.atUpsert.db.userAchievements.find? (userId, achievement.id))
    (hdefined : Defined (unlockRules w) achievement)
    (hrest : ∀ wr ∈ rest, ∃ d, wr = .userUpdate userId d)
    (hxp : ∀ u, (view Stmt s.db (t.write :: rest)).xpOf u =
      s.db.xpOf u + if userId = u then max 0 achievement.xpBonus else 0) :
    (unlockRules w).Commits me s (t.write :: rest) := by
  have hlocked : ¬Unlocked userId achievement.id s.db := by
    have hguard : ¬Unlocked userId achievement.id t.atUpsert.db :=
      of_decide_eq_true t.upsert_guard
    rwa [Unlocked, World.unlockedAt, hsame]
  have hview (u a : Id) : (view Stmt s.db (t.write :: rest)).unlockedAt u a =
      if (u, a) = (userId, achievement.id) then some t.now else s.db.unlockedAt u a := by
    rw [← t.unlockedAt_view hsame, view_cons, World.unlockedAt, World.unlockedAt,
      userAchievements_userUpdates hrest]
    rfl
  have hbonus : w.achievements.find? achievement.id = some achievement := by
    obtain ⟨s', hs', hfound⟩ := hdefined
    rw [← UnlockInv.achievements_eq hs']
    exact hfound
  apply h.commit me
  · intro u a time htime
    rw [hview]
    split
    · rename_i hkey
      obtain ⟨rfl, rfl⟩ := Prod.mk.inj hkey
      exact absurd (Option.isSome_of_eq_some htime) hlocked
    · exact htime
  · intro u a hu
    obtain ⟨rfl, rfl⟩ := (t.unlocks_iff hrest u a me).mp hu
    refine ⟨hlocked, ?_⟩
    rw [Unlocked, hview, if_pos rfl]
    rfl
  · intro u a
    have hown := h.own me u a
    rw [List.countP_singleton, t.announces_eq hrest]
    simp only [Bool.false_eq_true, if_false, Nat.add_zero]
    omega
  · intro u
    rw [hxp]
    refine congrArg (s.db.xpOf u + ·) ?_
    have hshare (a : Achievement) :
        ([(me, t.write :: rest)].countP (unlocks u a.id) : ℤ) * max 0 a.xpBonus =
          if a.id = achievement.id then (if userId = u then max 0 a.xpBonus else 0) else 0 := by
      rw [List.countP_singleton]
      simp only [t.unlocks_iff hrest, eq_comm (a := achievement.id)]
      by_cases hu : userId = u <;> by_cases ha : a.id = achievement.id <;> simp [hu, ha]
    rw [Table.sum_congr fun a _ => hshare a, Table.sum_single, hbonus]
    rfl

theorem keepsUnlocked_of_eq {db db' : World} (h : db'.userAchievements = db.userAchievements) :
    KeepsUnlocked db db' := by
  intro u a t ht
  rwa [World.unlockedAt, h]

theorem keepsUnlocked_progress (db : World) (u a : Id) (progress : ℤ) :
    KeepsUnlocked db (db.apply (.userAchievementUpdate u a { progress := some progress })) := by
  intro u' a' t ht
  simp only [World.unlockedAt, World.apply, Table.find?_modify] at ht ⊢
  split
  · cases hfound : db.userAchievements.find? (u', a') with
    | none =>
        rw [hfound] at ht
        cases ht
    | some row =>
        rw [hfound] at ht
        simpa [UserAchievementUpdate.apply] using ht
  · exact ht

theorem keepsUnlocked_create {db : World} {row : UserAchievement}
    (hfree : db.userAchievements.find? row.key = none) :
    KeepsUnlocked db (db.apply (.userAchievementCreate row)) := by
  intro u a t ht
  simp only [World.unlockedAt, World.apply] at ht ⊢
  rw [Table.find?_insert hfree]
  split
  · rename_i hkey
    rw [← hkey, hfree] at ht
    cases ht
  · exact ht

theorem achievementCommits_once (me : ℕ) (userId : Id) :
    AchievementCommits (unlockRules w) me userId where
  levelUp s _ _ h :=
    UnlockInv.commit_neutral h me (keepsUnlocked_of_eq rfl) (fun _ _ => rfl)
      (fun _ _ ha => by cases ha) fun _ => rfl
  free achievement s₀ s s' t hdefined _ _ hpos := by
    have h : UnlockInv w s' := Rules.rely_inv _ t.to_next
    exact h.commit_unlock t t.same hdefined (fun _ hwr => by cases hwr) fun _ =>
      t.xpOf_free hpos s'.db
  paid achievement s₀ s s₁ s' t p hdefined _ _ hpos := by
    have h : UnlockInv w s' := Rules.rely_inv _ p.to_commit
    exact h.commit_unlock t (p.same.trans t.same) hdefined (by simp) fun _ => t.xpOf_paid p hpos
  unlocked achievement s s₁ s₂ s' t ws hs₂ hws hr := by
    have h : UnlockInv w s' := Rules.rely_inv _ hr
    refine h.commit_neutral me (keepsUnlocked_of_eq rfl) (fun _ _ => rfl) ?_ fun _ => rfl
    intro u a ha
    obtain ⟨rfl, rfl⟩ : userId = u ∧ achievement.id = a := by simpa [announces] using ha
    have hown : s'.own me = s₂.own me ++ [(me, t.write :: ws)] :=
      hr.2.2.2.trans (Store.own_commit_self s₂ me t.write ws)
    rw [hown, List.countP_append, List.countP_append, List.countP_singleton, List.countP_singleton,
      t.announces_eq hws, if_pos ((t.unlocks_iff hws _ _ me).mpr ⟨rfl, rfl⟩)]
    simpa using Nat.lt_succ_of_le (hs₂.own me userId achievement.id)
  progress achievementId s row progress h hrow :=
    UnlockInv.commit_neutral h me (keepsUnlocked_progress s.db userId achievementId progress)
      (fun _ _ => by simp [unlocks]) (fun _ _ ha => by simp [announces] at ha) fun _ => rfl
  create achievementId s progress h hnone huser :=
    UnlockInv.commit_neutral h me (keepsUnlocked_create hnone)
      (fun _ _ => by simp [unlocks]) (fun _ _ ha => by simp [announces] at ha) fun _ => rfl

def Evaluates (p : Request Unit) : Prop := ∃ userId, p = evaluateForUser userId

theorem UnlockInv.init : UnlockInv w ⟨w, []⟩ where
  achievements_eq := rfl
  once _ _ := Nat.zero_le _
  spent _ _ h := absurd h (Nat.lt_irrefl 0)
  own _ _ _ := Nat.le_refl _
  xp userId := by simp [Table.sum]

theorem UnlockInv.unlockedOnce (h : UnlockInv w s) : UnlockedOnce w s where
  once := h.once
  announced userId achievementId := by
    have hle := Log.countP_le_of_own fun i => h.own i userId achievementId
    exact hle.trans (h.once userId achievementId)
  xp := h.xp

-- An unlock follows a read of the achievement as locked.
def ReadsLocked (seen : List (Seen Stmt)) {β : Type} : Stmt β → Prop
  | .userAchievementUpsertUnlocked u a _ _ => ∃ row,
      ⟨.userAchievementFindUnique u a, row⟩ ∈ seen ∧
        ¬(row.bind UserAchievement.unlockedAt).isSome
  | _ => True

section Reads

variable {userId : Id} {achievement : Achievement} {seen : List (Seen Stmt)}

theorem findsLocked_of_readsLocked {β : Type} (txSeen : List (Seen Stmt)) (st : Stmt β)
    (db : World) (hread : ReadsLocked seen st) (hrace : upsertsLocked seen (.run st) db = true) :
    findsLocked txSeen st db = true := by
  cases st with
  | userAchievementUpsertUnlocked u a now progress =>
      obtain ⟨row, hmem, hlocked⟩ := hread
      have hopen := of_decide_eq_true (List.all_eq_true.mp hrace _ hmem)
      exact decide_eq_true ((hopen.resolve_left fun hne => hne rfl).resolve_left hlocked)
  | _ => rfl

-- The criteria are read in any number of statements.
theorem evaluateWithProgress_informed {Q : List (Seen Stmt) → Evaluation → Prop}
    (hQ : ∀ result more, Q (more ++ seen) result) :
    Informed ReadsLocked (fun _ _ => True) Q (evaluateWithProgress achievement userId) seen := by
  have hnone (result : Evaluation) : Q seen result := hQ result []
  have hread {β : Type} (st : Stmt β) (b : β) (result : Evaluation) : Q (⟨st, b⟩ :: seen) result :=
    hQ result [⟨st, b⟩]
  unfold evaluateWithProgress
  cases achievement.type with
  | QUEST_COUNT =>
      dsimp only
      split
      · exact hnone _
      · exact ⟨trivial, fun _ _ _ _ => ⟨trivial, hread _ _ _⟩⟩
  | XP_THRESHOLD =>
      refine ⟨trivial, fun _ user _ _ => ⟨trivial, ?_⟩⟩
      cases user with
      | none => exact hread _ _ _
      | some user => exact hread _ _ _
  | CATEGORY_EXPLORER =>
      dsimp only
      split
      · split
        · exact hnone _
        · exact ⟨trivial, fun _ _ _ _ => ⟨trivial, hread _ _ _⟩⟩
      · exact hnone _
  | LOCATION_VISITS =>
      dsimp only
      split
      · exact hnone _
      · exact ⟨trivial, fun _ _ _ _ => ⟨trivial, hread _ _ _⟩⟩
  | SOCIAL =>
      dsimp only
      split
      · exact hnone _
      · exact ⟨trivial, fun _ _ _ _ => ⟨trivial, hread _ _ _⟩⟩
  | STREAK =>
      dsimp only
      split
      · exact hnone _
      · refine ⟨trivial, fun _ user _ _ => ⟨trivial, ?_⟩⟩
        cases user with
        | none => exact hread _ _ _
        | some user => exact hread _ _ _
  | CUSTOM => exact hnone _

theorem unlockTx_informed {Q : List (Seen Stmt) → List Write → Unit → Prop}
    {ws : List Write} {row : Option UserAchievement}
    (hread : ⟨.userAchievementFindUnique userId achievement.id, row⟩ ∈ seen)
    (hlocked : ¬(row.bind UserAchievement.unlockedAt).isSome) (hQ : ∀ seen ws, Q seen ws ()) :
    TxInformed ReadsLocked Q (unlockTx userId achievement) seen ws := by
  unfold unlockTx
  refine txInformed_query (fun _ => rfl) trivial fun now => txInformed_call ?_ fun _ _ _ _ => ?_
  · exact ⟨row, List.mem_cons_of_mem _ hread, hlocked⟩
  · split
    · refine txInformed_call trivial fun _ user _ _ => ?_
      exact txInformed_call trivial fun _ _ _ _ => hQ _ _
    · exact hQ _ _

theorem unlock_informed {row : Option UserAchievement}
    (hread : ⟨.userAchievementFindUnique userId achievement.id, row⟩ ∈ seen)
    (hlocked : ¬(row.bind UserAchievement.unlockedAt).isSome) :
    Informed ReadsLocked (fun _ _ => True) (fun _ _ => True) (unlock userId achievement) seen := by
  unfold unlock
  refine informed_query (fun _ => rfl) trivial (fun _ => trivial) fun before => ?_
  refine informed_transaction (unlockTx_informed (List.mem_cons_of_mem _ hread) hlocked ?_)
  refine fun seen _ => ⟨trivial, informed_call trivial fun _ _ _ _ => ⟨trivial, ?_⟩⟩
  split
  · refine informed_query (fun _ => rfl) trivial (fun _ => trivial) fun after => ?_
    dsimp only [Prog.when]
    split
    · exact ⟨trivial, fun _ _ _ _ => ⟨trivial, trivial⟩⟩
    · trivial
  · trivial

theorem evaluateOne_informed :
    Informed ReadsLocked (fun _ _ => True) (fun _ _ => True) (evaluateOne userId achievement)
      seen := by
  unfold evaluateOne
  refine informed_query (fun _ => rfl) trivial (fun _ => trivial) fun existing => ?_
  split
  · trivial
  · rename_i hlocked
    refine Informed.bind (evaluateWithProgress_informed fun result more => ?_)
    have hread : ⟨.userAchievementFindUnique userId achievement.id, existing⟩ ∈
        more ++ (⟨.userAchievementFindUnique userId achievement.id, existing⟩ : Seen Stmt) :: seen :=
      List.mem_append_right _ List.mem_cons_self
    cases existing with
    | some existing =>
        dsimp only
        split
        · exact unlock_informed hread hlocked
        · unfold Prog.when
          split
          · exact ⟨trivial, fun _ _ _ _ => ⟨trivial, trivial⟩⟩
          · trivial
    | none =>
        dsimp only
        split
        · exact unlock_informed hread hlocked
        · unfold Prog.when
          split
          · exact ⟨trivial, fun _ _ _ _ => ⟨trivial, trivial⟩⟩
          · trivial

theorem evaluateEach_informed (definitions : List Achievement) :
    Informed ReadsLocked (fun _ _ => True) (fun _ _ => True) (evaluateEach userId definitions)
      seen := by
  induction definitions generalizing seen with
  | nil => trivial
  | cons achievement rest ih =>
      exact Informed.bind (evaluateOne_informed.mono fun seen _ _ => ih)

end Reads

theorem safe_of_reaches {r r' : Recalling Stmt World Write ApiError}
    (h : Recalling.Reaches Evaluates upsertsLocked r r') (hr : r.Safe (unlockContract w)) :
    r'.Safe (unlockContract w) ∧ KeepsUnlocked r.store.db r'.store.db := by
  refine Recalling.Reaches.safe (fun p hp me st _ => ?_) (fun a st hst => ?_) hr h
  · obtain ⟨userId, rfl⟩ := hp
    have hinformed : Informed ReadsLocked (fun _ _ => True) (fun _ _ => True)
        (evaluateForUser userId) [] :=
      informed_query (fun _ => rfl) trivial (fun _ => trivial) fun definitions =>
        evaluateEach_informed definitions
    exact RaceContract.wp_of_informed (fun _ => findsLocked_of_readsLocked) (fun _ _ => trivial)
      hinformed (wp_evaluateForUser (achievementCommits_once me userId))
  · exact ⟨⟨hst.achievements_eq, hst.once, hst.spent, hst.own, hst.xp⟩, keepsUnlocked_of_eq rfl⟩

-- As long as no other unlock comes between the check of one and its upsert, every
-- achievement is unlocked, paid for and announced at most once, and stays unlocked as it was.
theorem unlockedOnce_of_reaches {w : World} {r r' : Recalling Stmt World Write ApiError}
    (h : Recalling.Reaches Evaluates upsertsLocked (Recalling.init w) r)
    (h' : Recalling.Reaches Evaluates upsertsLocked r r') :
    UnlockedOnce w r'.store ∧ KeepsUnlocked r.store.db r'.store.db := by
  obtain ⟨hr, _⟩ := safe_of_reaches h (Recalling.init_safe UnlockInv.init)
  obtain ⟨hr', hkeeps⟩ := safe_of_reaches h' hr
  exact ⟨hr'.inv.unlockedOnce, hkeeps⟩

-- A user who has earned an achievement of 30 XP.
def settler : World :=
  { World.empty with
    users := Table.empty.insert
      { id := 1, email := "settler@example.com", username := "settler", passwordHash := "hash" }
    achievements := Table.empty.insert
      { id := 1, slug := "newcomer", type := .QUEST_COUNT
        criteria := .obj [("minQuests", .num 0)], xpBonus := 30 } }

-- Two evaluations at the same time: the second reads the achievement once the first has
-- unlocked it, but before it is announced.
theorem unlockedOnce_two_evaluations : ∃ r r' : Recalling Stmt World Write ApiError,
    (UnlockedOnce settler r'.store ∧ KeepsUnlocked r.store.db r'.store.db) ∧
      r.store.db.unlockedAt 1 1 = some 0 ∧ r'.store.db.xpOf 1 = 30 ∧
        r'.store.wal.countP (announces 1 1) = 1 := by
  obtain ⟨r, r', h, h', hobs⟩ := Recalling.exists_reaches_of_play_play Evaluates upsertsLocked
    (Recalling.init settler) (System.interleave [evaluateForUser 1, evaluateForUser 1]
      [0, 1, 0, 0, 0, 0, 0, 0, 0, 0, 0])
    (.happen 5 :: System.interleave [] [1, 0, 0])
    (fun r r' => (r.store.db.unlockedAt 1 1, r'.store.db.xpOf 1,
      r'.store.wal.countP (announces 1 1))) (some 0, 30, 1)
    (by simp [Evaluates, System.interleave]) (by decide +kernel)
  simp only [Prod.mk.injEq] at hobs
  exact ⟨r, r', unlockedOnce_of_reaches h h', hobs⟩

-- Both evaluations read the achievement as locked, and then both unlock it, the second
-- at a later time.
theorem unlocked_twice : ∃ s s' : System Stmt World Write ApiError,
    System.Reaches Evaluates Guard.none (System.init settler) s ∧
      System.Reaches Evaluates Guard.none s s' ∧ s'.store.db.xpOf 1 = 60 ∧
      s'.store.wal.countP (announces 1 1) = 2 ∧
      s.store.db.unlockedAt 1 1 = some 0 ∧ s'.store.db.unlockedAt 1 1 = some 5 := by
  obtain ⟨s, s', hs, hs', hobs⟩ := System.exists_reaches_of_play_play Evaluates Guard.none
    (System.init settler) (System.interleave [evaluateForUser 1, evaluateForUser 1]
      [0, 0, 0, 1, 1, 1, 0, 0, 0, 0, 0, 0, 0, 0, 0])
    (.happen 5 :: System.interleave [] [1, 1, 1, 1, 1, 1, 1, 1, 1])
    (fun s s' => (s'.store.db.xpOf 1, s'.store.wal.countP (announces 1 1),
      s.store.db.unlockedAt 1 1, s'.store.db.unlockedAt 1 1)) (60, 2, some 0, some 5)
    (by simp [Evaluates, System.interleave]) (by decide +kernel)
  simp only [Prod.mk.injEq] at hobs
  exact ⟨s, s', hs, hs', hobs⟩

end AchievementsService

end SideQuest
