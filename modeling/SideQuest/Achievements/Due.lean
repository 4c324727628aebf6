import SideQuest.Achievements.Fixpoint
import SideQuest.Streaks.Daily
import SideQuest.Friendships.FriendList

-- Which achievements a user has come to, and the writes that bring no user any closer.

namespace SideQuest

open ReadCommitted
open Presence (acceptedOf)

-- The quests that the user has completed.
def World.completedIds (w : World) (userId : Id) : List Id :=
  (w.completions.rows.filter fun c => c.userId = userId ∧ c.status = .COMPLETED).map
    QuestCompletion.questId

def World.friendCount (w : World) (userId : Id) : ℕ := w.friendships.count (acceptedOf userId)

theorem mem_completedIds {w : World} {userId questId : Id} : questId ∈ w.completedIds userId ↔
    (w.completions.find? (userId, questId)).map QuestCompletion.status = some .COMPLETED := by
  rw [World.completedIds, List.mem_map]
  constructor
  · rintro ⟨c, hc, rfl⟩
    obtain ⟨hmem, hmatch⟩ := List.mem_filter.mp hc
    obtain ⟨rfl, hstatus⟩ := of_decide_eq_true hmatch
    have hfound : w.completions.find? (c.userId, c.questId) = some c := Table.find?_of_mem hmem
    rw [hfound, Option.map_some, hstatus]
  · intro h
    obtain ⟨c, hfound, hstatus⟩ := Option.map_eq_some_iff.mp h
    have hkey : c.key = (userId, questId) := Table.key_of_find? hfound
    obtain ⟨rfl, rfl⟩ := Prod.mk.inj hkey
    exact ⟨c, List.mem_filter.mpr ⟨Table.mem_of_find? hfound, decide_eq_true ⟨rfl, hstatus⟩⟩, rfl⟩

theorem nodup_completedIds (w : World) (userId : Id) : (w.completedIds userId).Nodup := by
  refine List.Nodup.map_on (fun c hc c' hc' hquest => ?_)
    (w.completions.nodup.of_map _ |>.filter _)
  obtain ⟨hmem, hmatch⟩ := List.mem_filter.mp hc
  obtain ⟨hmem', hmatch'⟩ := List.mem_filter.mp hc'
  have huser : c.userId = c'.userId :=
    (of_decide_eq_true hmatch).1.trans (of_decide_eq_true hmatch').1.symm
  exact List.inj_on_of_nodup_map w.completions.nodup hmem hmem' (Prod.ext huser hquest)

namespace AchievementsService

variable {userId : Id} {w w' : World} {achievement : Achievement}

-- The user has got somewhere, and far enough.
def Due (userId : Id) (w : World) (achievement : Achievement) : Prop :=
  (evaluation userId w achievement).earned = true ∧
    0 < (evaluation userId w achievement).progress

instance (userId : Id) (w : World) (achievement : Achievement) :
    Decidable (Due userId w achievement) :=
  inferInstanceAs (Decidable (_ ∧ _))

-- The number that the criterion of an achievement other than an XP threshold asks for.
def target (achievement : Achievement) : Option ℚ :=
  let criteria := parseCriteria achievement.criteria
  match achievement.type with
  | .QUEST_COUNT => criteria.minQuests
  | .CATEGORY_EXPLORER =>
      (criteria.categorySlug.filter fun slug => slug ≠ "").bind fun _ => criteria.minQuests
  | .LOCATION_VISITS => criteria.minLocations
  | .SOCIAL => criteria.minFriends
  | .STREAK => criteria.minStreakDays
  | .XP_THRESHOLD | .CUSTOM => none

-- How far the user has got.
def reached (userId : Id) (w : World) (achievement : Achievement) : ℕ :=
  match achievement.type with
  | .QUEST_COUNT => (w.completedIds userId).length
  | .CATEGORY_EXPLORER => (w.completedIds userId).countP fun questId =>
      ((w.quests.find? questId).bind Quest.categorySlug) =
        (parseCriteria achievement.criteria).categorySlug
  | .LOCATION_VISITS => ((w.completedIds userId).flatMap fun questId =>
      (w.locationsOf questId).map QuestLocation.id).dedup.length
  | .SOCIAL => w.friendCount userId
  | .STREAK => w.streakDaysOf userId
  | .XP_THRESHOLD | .CUSTOM => 0

theorem evaluation_cases (userId : Id) (w : World) (htype : achievement.type ≠ .XP_THRESHOLD) :
    (evaluation userId w achievement = notEarned ∧
        (target achievement = none ∨ reached userId w achievement = 0)) ∨
      ∃ m, target achievement = some m ∧
        evaluation userId w achievement = .ofCount m (reached userId w achievement) := by
  unfold evaluation evaluateWithProgress target reached
  cases hcase : achievement.type with
  | XP_THRESHOLD => exact absurd hcase htype
  | CUSTOM => exact Or.inl ⟨rfl, Or.inl rfl⟩
  | QUEST_COUNT =>
      dsimp only
      cases (parseCriteria achievement.criteria).minQuests with
      | none => exact Or.inl ⟨rfl, Or.inl rfl⟩
      | some m =>
          refine Or.inr ⟨m, rfl, ?_⟩
          rw [World.completedIds, List.length_map, ← List.countP_eq_length_filter]
          rfl
  | CATEGORY_EXPLORER =>
      dsimp only
      cases hslug : (parseCriteria achievement.criteria).categorySlug with
      | none => exact Or.inl ⟨rfl, Or.inl rfl⟩
      | some slug =>
          cases (parseCriteria achievement.criteria).minQuests with
          | none => exact Or.inl ⟨rfl, Or.inl (by simp)⟩
          | some m =>
              by_cases hempty : slug = ""
              · exact Or.inl ⟨by rw [hempty]; rfl, Or.inl (by simp [hempty])⟩
              · refine Or.inr ⟨m, by simp [Option.filter, hempty], ?_⟩
                have hcount : w.completions.count (fun c => c.userId = userId ∧
                    c.status = .COMPLETED ∧
                      ((w.quests.find? c.questId).bind Quest.categorySlug) = some slug) =
                    (w.completedIds userId).countP fun questId =>
                      ((w.quests.find? questId).bind Quest.categorySlug) = some slug := by
                  rw [World.completedIds, List.countP_map, List.countP_filter, Table.count]
                  refine List.countP_congr fun c _ => ?_
                  simp only [Function.comp_apply, decide_eq_true_eq, Bool.and_eq_true]
                  tauto
                simp only [if_neg hempty, ← hcount]
                rfl
  | LOCATION_VISITS =>
      dsimp only
      cases (parseCriteria achievement.criteria).minLocations with
      | none => exact Or.inl ⟨rfl, Or.inl rfl⟩
      | some m =>
          refine Or.inr ⟨m, rfl, ?_⟩
          rw [World.completedIds, List.flatMap_map]
          rfl
  | SOCIAL =>
      dsimp only
      cases (parseCriteria achievement.criteria).minFriends with
      | none => exact Or.inl ⟨rfl, Or.inl rfl⟩
      | some m => exact Or.inr ⟨m, rfl, rfl⟩
  | STREAK =>
      dsimp only
      cases (parseCriteria achievement.criteria).minStreakDays with
      | none => exact Or.inl ⟨rfl, Or.inl rfl⟩
      | some m =>
          simp only [Prog.call_bind, Prog.alone, Backend.exec, Stmt.exec, ask, World.streakDaysOf]
          cases w.users.find? userId with
          | none => exact Or.inl ⟨rfl, Or.inr rfl⟩
          | some user => exact Or.inr ⟨m, rfl, rfl⟩

theorem due_iff (htype : achievement.type ≠ .XP_THRESHOLD) : Due userId w achievement ↔
    ∃ m ∈ target achievement, m ≤ (reached userId w achievement : ℚ) ∧
      0 < reached userId w achievement := by
  unfold Due
  rcases evaluation_cases userId w htype with ⟨heval, hnothing⟩ | ⟨m, hm, heval⟩
  · rw [heval]
    refine iff_of_false (fun h => absurd h.1 Bool.false_ne_true) ?_
    rintro ⟨m, hm, _, hpos⟩
    rcases hnothing with hnone | hzero
    · rw [hnone] at hm
      cases hm
    · omega
  · rw [heval, hm]
    simp [Evaluation.ofCount]

-- The user gets no closer to any achievement, and loses none.
structure Spared (userId : Id) (w w' : World) : Prop where
  achievements : w'.achievements = w.achievements
  quests : w'.quests = w.quests
  questLocations : w'.questLocations = w.questLocations
  completed : w'.completedIds userId ⊆ w.completedIds userId
  friends : w'.friendCount userId ≤ w.friendCount userId
  streak : w'.streakDaysOf userId ≤ w.streakDaysOf userId
  unlocked : ∀ id, Unlocked userId id w → Unlocked userId id w'

theorem Spared.refl (userId : Id) (w : World) : Spared userId w w :=
  ⟨rfl, rfl, rfl, fun _ h => h, le_rfl, le_rfl, fun _ h => h⟩

theorem Spared.trans {w'' : World} (h : Spared userId w w') (h' : Spared userId w' w'') :
    Spared userId w w'' where
  achievements := h'.achievements.trans h.achievements
  quests := h'.quests.trans h.quests
  questLocations := h'.questLocations.trans h.questLocations
  completed := fun _ hq => h.completed (h'.completed hq)
  friends := h'.friends.trans h.friends
  streak := h'.streak.trans h.streak
  unlocked id := fun hunlocked => h'.unlocked id (h.unlocked id hunlocked)

theorem Spared.reached_le (h : Spared userId w w') (achievement : Achievement) :
    reached userId w' achievement ≤ reached userId w achievement := by
  have hcompleted := List.subperm_of_subset (nodup_completedIds w' userId) h.completed
  have hlocations (questId : Id) : w'.locationsOf questId = w.locationsOf questId := by
    rw [World.locationsOf, h.questLocations, World.locationsOf]
  unfold reached
  cases achievement.type with
  | QUEST_COUNT => exact hcompleted.length_le
  | CATEGORY_EXPLORER =>
      rw [h.quests]
      exact hcompleted.countP_le _
  | LOCATION_VISITS =>
      simp only [hlocations]
      refine (List.subperm_of_subset (List.nodup_dedup _) fun id hid => ?_).length_le
      rw [List.mem_dedup, List.mem_flatMap] at hid ⊢
      obtain ⟨questId, hquest, hid⟩ := hid
      exact ⟨questId, h.completed hquest, hid⟩
  | SOCIAL => exact h.friends
  | STREAK => exact h.streak
  | XP_THRESHOLD | CUSTOM => exact le_rfl

-- Whoever is due after such a change was due before.
theorem Spared.due (h : Spared userId w w') (htype : achievement.type ≠ .XP_THRESHOLD)
    (hdue : Due userId w' achievement) : Due userId w achievement := by
  have hle := h.reached_le achievement
  obtain ⟨m, hm, hreached, hpos⟩ := (due_iff htype).mp hdue
  refine (due_iff htype).mpr ⟨m, hm, hreached.trans ?_, hpos.trans_le hle⟩
  exact_mod_cast hle

-- No achievement that the user has come to is still locked.
def NoneMissed (userId : Id) (w : World) : Prop :=
  ∀ achievement ∈ w.achievements.rows, achievement.type ≠ .XP_THRESHOLD →
    Due userId w achievement → Unlocked userId achievement.id w

-- Nobody has come anywhere yet.
theorem noneMissed_of_untouched (hcompletions : ∀ c ∈ w.completions.rows, c.status ≠ .COMPLETED)
    (hfriendships : w.friendships.rows = []) (hstreaks : ∀ user ∈ w.users.rows, user.streakDays = 0)
    (userId : Id) : NoneMissed userId w := by
  have hcompleted : w.completedIds userId = [] := by
    refine List.eq_nil_iff_forall_not_mem.mpr fun questId hquest => ?_
    obtain ⟨c, hfound, hstatus⟩ := Option.map_eq_some_iff.mp (mem_completedIds.mp hquest)
    exact hcompletions c (Table.mem_of_find? hfound) hstatus
  have hfriends : w.friendCount userId = 0 := by
    rw [World.friendCount, Table.count, hfriendships, List.countP_nil]
  have hstreak : w.streakDaysOf userId = 0 := by
    rw [World.streakDaysOf]
    cases hfound : w.users.find? userId with
    | none => rfl
    | some user => exact hstreaks user (Table.mem_of_find? hfound)
  intro achievement _ htype hdue
  obtain ⟨_, _, _, hpos⟩ := (due_iff htype).mp hdue
  have hzero : reached userId w achievement = 0 := by
    unfold reached
    rw [hcompleted, hfriends, hstreak]
    split <;> rfl
  exact absurd hzero hpos.ne'

theorem Spared.noneMissed (h : Spared userId w w') (hw : NoneMissed userId w) :
    NoneMissed userId w' := by
  intro achievement ha htype hdue
  rw [h.achievements] at ha
  exact h.unlocked _ (hw achievement ha htype (h.due htype hdue))

-- A write that brings the user no closer.
def Harmless (userId : Id) : Write → Prop
  | .userCreate row => row.streakDays = 0
  | .userUpdate id d => id = userId → ∀ days ∈ d.streakDays, days = 0
  | .completionCreate row => row.userId = userId → row.status ≠ .COMPLETED
  | .completionUpdate id _ d => id = userId → d.status ≠ some .COMPLETED
  | .friendshipCreate row => acceptedOf userId row = false
  | .friendshipUpdate _ d => d.status ≠ .ACCEPTED
  | _ => True

section Writes

variable {wr : Write}

theorem streakDaysOf_userCreate {row : User} (h : row.streakDays = 0) :
    (w.apply (.userCreate row)).streakDaysOf userId ≤ w.streakDaysOf userId := by
  rcases w.users.find?_insert_cases row userId with hsame | ⟨_, hnone, hfound⟩
  · exact (congrArg (Option.elim · 0 User.streakDays) hsame).le
  · have hzero : (w.apply (.userCreate row)).streakDaysOf userId = row.streakDays :=
      congrArg (Option.elim · 0 User.streakDays) hfound
    rw [hzero, h]
    exact Nat.zero_le _

theorem streakDaysOf_userUpdate {id : Id} {d : UserUpdate}
    (h : id = userId → ∀ days ∈ d.streakDays, days = 0) :
    (w.apply (.userUpdate id d)).streakDaysOf userId ≤ w.streakDaysOf userId := by
  rw [World.streakDaysOf, World.find?_userUpdate, World.streakDaysOf]
  split
  · rename_i hid
    cases w.users.find? userId with
    | none => exact le_rfl
    | some user =>
        show d.streakDays.getD user.streakDays ≤ user.streakDays
        cases hdays : d.streakDays with
        | none => exact le_rfl
        | some days =>
            rw [h hid.symm days hdays]
            exact Nat.zero_le _
  · exact le_rfl

theorem completedIds_completionCreate {row : QuestCompletion}
    (h : row.userId = userId → row.status ≠ .COMPLETED) :
    (w.apply (.completionCreate row)).completedIds userId ⊆ w.completedIds userId := by
  intro questId hquest
  rw [mem_completedIds] at hquest ⊢
  rcases w.completions.find?_insert_cases row (userId, questId) with hsame | ⟨hkey, _, hfound⟩
  · rwa [World.apply, hsame] at hquest
  · rw [World.apply, hfound, Option.map_some] at hquest
    exact absurd (Option.some.inj hquest) (h (Prod.mk.inj hkey).1)

theorem completedIds_completionUpdate {id questId : Id} {d : QuestCompletionUpdate}
    (h : id = userId → d.status ≠ some .COMPLETED) :
    (w.apply (.completionUpdate id questId d)).completedIds userId ⊆ w.completedIds userId := by
  intro other hother
  rw [mem_completedIds] at hother ⊢
  rw [World.apply, Table.find?_modify] at hother
  split at hother
  · rename_i hkey
    cases hfound : w.completions.find? (userId, other) with
    | none =>
        rw [hfound] at hother
        cases hother
    | some c =>
        rw [hfound, Option.map_some, Option.map_some] at hother
        have hstatus : d.status.getD c.status = .COMPLETED := Option.some.inj hother
        cases hd : d.status with
        | none =>
            rw [hd] at hstatus
            exact congrArg some hstatus
        | some status =>
            rw [hd] at hstatus
            exact absurd (hd.trans (congrArg some hstatus)) (h (Prod.mk.inj hkey).1.symm)
  · exact hother

theorem unlocked_userAchievementCreate {row : UserAchievement} {id : Id}
    (h : Unlocked userId id w) : Unlocked userId id (w.apply (.userAchievementCreate row)) := by
  rcases w.userAchievements.find?_insert_cases row (userId, id) with hsame | ⟨_, hnone, _⟩
  · rwa [Unlocked, World.unlockedAt, World.apply, hsame]
  · rw [Unlocked, World.unlockedAt, hnone] at h
    cases h

theorem unlocked_userAchievementUpdate {v achievementId id : Id} {d : UserAchievementUpdate}
    (h : Unlocked userId id w) :
    Unlocked userId id (w.apply (.userAchievementUpdate v achievementId d)) := by
  rw [Unlocked, World.unlockedAt, World.apply, Table.find?_modify]
  split
  · obtain ⟨now, hnow⟩ := Option.isSome_iff_exists.mp h
    obtain ⟨row, hrow, hat⟩ := Option.bind_eq_some_iff.mp hnow
    rw [hrow]
    show (d.unlockedAt <|> row.unlockedAt).isSome
    rw [hat]
    cases d.unlockedAt <;> rfl
  · exact h

theorem spared_apply (h : Harmless userId wr) : Spared userId w (w.apply wr) := by
  have hrefl := Spared.refl userId w
  cases wr with
  | userCreate row => exact { hrefl with streak := streakDaysOf_userCreate h }
  | userUpdate id d => exact { hrefl with streak := streakDaysOf_userUpdate h }
  | completionCreate row => exact { hrefl with completed := completedIds_completionCreate h }
  | completionUpdate id questId d =>
      exact { hrefl with completed := completedIds_completionUpdate h }
  | userAchievementCreate row =>
      exact { hrefl with unlocked := fun _ => unlocked_userAchievementCreate }
  | userAchievementUpdate v id d =>
      exact { hrefl with unlocked := fun _ => unlocked_userAchievementUpdate }
  | friendshipCreate row => exact { hrefl with friends := w.friendships.count_insert_le h }
  | friendshipUpdate id d =>
      refine { hrefl with
        friends := w.friendships.count_modify_le id d.apply d.id_apply fun f hf => ?_ }
      exact absurd (of_decide_eq_true hf).1 h
  | friendshipDelete row => exact { hrefl with friends := w.friendships.count_erase_le row.id _ }
  | checkInCreate | inviteCreate | inviteUpdate | emit => exact { hrefl with }

theorem spared_view {ws : List Write} (h : ∀ wr ∈ ws, Harmless userId wr) :
    Spared userId w (view Stmt w ws) := by
  induction ws generalizing w with
  | nil => exact Spared.refl userId w
  | cons wr ws ih =>
      rw [view_cons]
      exact (spared_apply (h wr List.mem_cons_self)).trans
        (ih fun wr' hwr' => h wr' (List.mem_cons_of_mem _ hwr'))

-- Whom an acceptance leaves alone.
theorem spared_accept {id : Id} {f : Friendship} (hf : w.friendships.find? id = some f)
    (hother : f.requesterId ≠ userId ∧ f.addresseeId ≠ userId) (now : Time) :
    Spared userId w (w.apply (.friendshipUpdate id ⟨.ACCEPTED, now⟩)) := by
  refine { Spared.refl userId w with friends := le_of_eq ?_ }
  simp only [World.friendCount, World.apply, Table.count_eq_sum]
  refine Table.sum_modify_of_eq _ _ _ _ _ fun row hrow => ?_
  rw [hf] at hrow
  obtain rfl := Option.some.inj hrow
  simp [acceptedOf, FriendshipUpdate.apply, hother.1, hother.2]

end Writes

end AchievementsService

end SideQuest
