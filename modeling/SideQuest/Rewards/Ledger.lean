import SideQuest.Quests.Alone
import SideQuest.Rewards.NoLostXp
import SideQuest.Rewards.Totals

-- The counters of a user agree with the rows that they summarise, over requests that
-- run one at a time, as long as no finished quest is started again.

namespace SideQuest

open ReadCommitted QuestsService AchievementsService InvitesService AuthService

-- The reward ledger.
structure Ledger (w : World) : Prop where
  questsDone : ∀ user ∈ w.users.rows, user.questsDone = w.completedQuests user.id
  xp : ∀ user ∈ w.users.rows, user.xp = w.questXp user.id + w.achievementXp user.id +
    REFERRAL_XP * w.redeemedInvites user.id

-- The ledger of all ids: who is not there has nothing to account for.
structure Balanced (w : World) : Prop where
  questsDone : ∀ userId, w.questsDoneOf userId = w.completedQuests userId
  xp : ∀ userId, w.xpOf userId = w.earned userId

theorem Balanced.ledger {w : World} (h : Balanced w) : Ledger w where
  questsDone user hmem := by
    have hdone := h.questsDone user.id
    rwa [World.questsDoneOf, Table.find?_of_mem hmem] at hdone
  xp user hmem := by
    have hxp := h.xp user.id
    rwa [World.xpOf, Table.find?_of_mem hmem] at hxp

section Absent

variable {w : World} {userId : Id}

theorem completedQuests_of_absent (hw : w.ForeignKeys) (hnone : w.users.find? userId = none) :
    w.completedQuests userId = 0 ∧ w.questXp userId = 0 := by
  have hne : ∀ c ∈ w.completions.rows, c.userId ≠ userId := by
    intro c hc he
    have hknown := hw.completions c hc
    rw [he, hnone] at hknown
    cases hknown
  constructor
  · rw [World.completedQuests, Table.count_eq_sum]
    exact Table.sum_eq_zero fun c hc => by simp [hne c hc]
  · exact Table.sum_eq_zero fun c hc => by simp [hne c hc]

theorem achievementXp_of_absent (hw : w.ForeignKeys) (hnone : w.users.find? userId = none) :
    w.achievementXp userId = 0 := by
  refine Table.sum_eq_zero fun a ha => if_neg fun hmine => ?_
  have hknown := hw.userAchievements a ha
  rw [hmine.1, hnone] at hknown
  cases hknown

theorem redeemedInvites_of_absent (hw : w.ForeignKeys) (hnone : w.users.find? userId = none) :
    w.redeemedInvites userId = 0 := by
  rw [World.redeemedInvites, Table.count_eq_sum]
  refine Table.sum_eq_zero fun i hi => if_neg fun hmine => ?_
  obtain ⟨_, hside⟩ := of_decide_eq_true hmine
  rcases hside with hinviter | hinvitee
  · have hknown := hw.inviters i hi
    rw [hinviter, hnone] at hknown
    cases hknown
  · have hknown := hw.invitees i hi userId hinvitee
    rw [hnone] at hknown
    cases hknown

end Absent

-- The rows of the schema belong to users who are there.
theorem Ledger.balanced {w : World} (h : Ledger w) (hw : w.ForeignKeys) : Balanced w := by
  constructor
  · intro userId
    rw [World.questsDoneOf]
    cases hfound : w.users.find? userId with
    | some user =>
        have hdone := h.questsDone user (Table.mem_of_find? hfound)
        rwa [Table.key_of_find? hfound] at hdone
    | none => exact (completedQuests_of_absent hw hfound).1.symm
  · intro userId
    rw [World.xpOf, World.earned]
    cases hfound : w.users.find? userId with
    | some user =>
        have hxp := h.xp user (Table.mem_of_find? hfound)
        rwa [Table.key_of_find? hfound] at hxp
    | none =>
        rw [(completedQuests_of_absent hw hfound).2, achievementXp_of_absent hw hfound,
          redeemedInvites_of_absent hw hfound]
        rfl

theorem earned_congr {w w' : World} {userId : Id} (hquestXp : w'.questXp userId = w.questXp userId)
    (hachievementXp : w'.achievementXp userId = w.achievementXp userId)
    (hredeemed : w'.redeemedInvites userId = w.redeemedInvites userId) :
    w'.earned userId = w.earned userId := by
  rw [World.earned, World.earned, hquestXp, hachievementXp, hredeemed]

structure LedgerInv (definitions : Table Achievement.id) (w : World) : Prop
    extends Balanced w where
  achievements_eq : w.achievements = definitions

abbrev ledgerRules (definitions : Table Achievement.id) : Rules Stmt :=
  Rules.alone (LedgerInv definitions)

section Commits

variable {definitions : Table Achievement.id} {me : ℕ} {s : Store World Write} {ws : List Write}

-- A commit after which counters and rows have grown alike.
theorem LedgerInv.commit (h : LedgerInv definitions s.db) (n : Id → ℕ) (x : Id → ℤ)
    (hdone : ∀ u, (view Stmt s.db ws).questsDoneOf u = s.db.questsDoneOf u + n u)
    (hcompleted : ∀ u, (view Stmt s.db ws).completedQuests u = s.db.completedQuests u + n u)
    (hxp : ∀ u, (view Stmt s.db ws).xpOf u = s.db.xpOf u + x u)
    (hearned : ∀ u, (view Stmt s.db ws).earned u = s.db.earned u + x u) :
    (ledgerRules definitions).Commits me s ws := by
  refine ⟨?_, trivial⟩
  show LedgerInv definitions _
  rw [Store.commit_db]
  refine ⟨⟨fun u => ?_, fun u => ?_⟩, ?_⟩
  · rw [hdone, hcompleted, h.questsDone]
  · rw [hxp, hearned, h.xp]
  · rw [view_achievements, h.achievements_eq]

-- A commit that changes neither.
theorem LedgerInv.commit_same (h : LedgerInv definitions s.db)
    (hdone : ∀ u, (view Stmt s.db ws).questsDoneOf u = s.db.questsDoneOf u)
    (hcompleted : ∀ u, (view Stmt s.db ws).completedQuests u = s.db.completedQuests u)
    (hxp : ∀ u, (view Stmt s.db ws).xpOf u = s.db.xpOf u)
    (hearned : ∀ u, (view Stmt s.db ws).earned u = s.db.earned u) :
    (ledgerRules definitions).Commits me s ws := by
  apply h.commit (fun _ => 0) (fun _ => 0)
  · exact hdone
  · exact hcompleted
  · exact fun u => (hxp u).trans (Int.add_zero _).symm
  · exact fun u => (hearned u).trans (Int.add_zero _).symm

end Commits

-- Alone, a transaction reads what is still there when it commits.
section Alone

variable {I : World → Prop} {me : ℕ} {host : Host} {userId questId : Id}
  {quest : QuestWithLocations} {proof : Option CompletionProof} {seen : List (Seen Stmt)}
  {ws : List Write} {s s₁ s' : Store World Write}

theorem completion_alone
    (t : Finalizing (Rules.alone I) me host userId questId quest proof seen ws s s') :
    (view Stmt s'.db ws).completions.find? (userId, questId) = some t.completion := by
  have hclaim : t.atClaim = t.atCompletion := t.to_claim.2
  have hreward : t.atReward = t.atClaim := t.to_reward.2
  have hcommit : s' = t.atReward := t.to_commit.2
  have hstore : t.atCompletion = s' := (hcommit.trans (hreward.trans hclaim)).symm
  have hfound := t.completion_found
  rwa [hstore] at hfound

theorem unlocked_alone {achievement : Achievement}
    (t : Unlocking (Rules.alone I) me userId achievement s s') :
    t.atUpsert = s ∧ s' = s :=
  ⟨t.to_upsert.2, t.to_next.2.trans t.to_upsert.2⟩

end Alone

section Totals

variable {me : ℕ} {host : Host} {userId questId : Id} {quest : QuestWithLocations}
  {proof : Option CompletionProof} {seen : List (Seen Stmt)} {ws : List Write}
  {s s₁ s' : Store World Write} {R : Rules Stmt} {db : World} {u : Id}

theorem QuestsService.Finalizing.totals
    (t : Finalizing R me host userId questId quest proof seen ws s s')
    {user : User} (huser : db.users.find? userId = some user)
    (hfound : db.completions.find? (userId, questId) = some t.completion) :
    (view Stmt db t.writes).questsDoneOf u = db.questsDoneOf u + (if userId = u then 1 else 0) ∧
      (view Stmt db t.writes).completedQuests u =
          db.completedQuests u + (if userId = u then 1 else 0) ∧
        (view Stmt db t.writes).earned u =
          db.earned u + if userId = u then quest.quest.xpReward else 0 := by
  obtain ⟨hcompleted, hquestXp⟩ := completions_complete (u := u) hfound t.notCompleted
    (d := completedData quest.quest proof t.completion t.now) rfl rfl
  refine ⟨?_, hcompleted, ?_⟩
  · exact questsDoneOf_increment (d := rewardData host quest t.user t.now) rfl huser
  · have hearned : (view Stmt db t.writes).earned u =
        (db.apply (claimWrite userId questId quest proof t.completion t.now)).questXp u +
          db.achievementXp u + REFERRAL_XP * db.redeemedInvites u := rfl
    rw [hearned, hquestXp, World.earned]
    omega

theorem QuestsService.CheckingIn.totals {locationId : Id} {body : QuestCheckInBody}
    (t : CheckingIn R me userId questId locationId body s s') (db : World) (u : Id) :
    (view Stmt db t.writes).questsDoneOf u = db.questsDoneOf u ∧
      (view Stmt db t.writes).completedQuests u = db.completedQuests u ∧
        (view Stmt db t.writes).earned u = db.earned u := by
  obtain ⟨hcompleted, hquestXp⟩ := completions_keep db userId questId
    (d := { checkedInLocationIds := some locationId }) rfl rfl u
  have hearned : (view Stmt db t.writes).earned u =
      (db.apply (.completionUpdate userId questId
        { checkedInLocationIds := some locationId })).questXp u +
          db.achievementXp u + REFERRAL_XP * db.redeemedInvites u := rfl
  refine ⟨questsDoneOf_keep rfl, hcompleted, ?_⟩
  rw [hearned, hquestXp, World.earned]

-- Alone, the last check-in adds to counters and rows what its finalization adds.
theorem lastCheckIn_totals {I : World → Prop} {locationId : Id} {body : QuestCheckInBody}
    (t : CheckingIn (Rules.alone I) me userId questId locationId body s s₁)
    (fin : Finalizing (Rules.alone I) me host userId questId quest proof seen t.writes s₁ s')
    (u : Id) :
    let w := view Stmt s'.db (t.writes ++ fin.writes)
    w.questsDoneOf u = s'.db.questsDoneOf u + (if userId = u then 1 else 0) ∧
      w.completedQuests u = s'.db.completedQuests u + (if userId = u then 1 else 0) ∧
        w.earned u = s'.db.earned u + (if userId = u then quest.quest.xpReward else 0) ∧
          w.xpOf u = s'.db.xpOf u + if userId = u then quest.quest.xpReward else 0 := by
  obtain ⟨row, hrow⟩ := t.still_user fun _ => fin.same
  have huser := t.view_user s'.db
  rw [hrow, Option.map_some] at huser
  obtain ⟨hdone, hcompleted, hearned⟩ := t.totals s'.db u
  obtain ⟨hdone', hcompleted', hearned'⟩ := fin.totals (u := u) huser (completion_alone fin)
  have hxp' := fin.xpOf_paid huser u
  dsimp only
  rw [view_append]
  refine ⟨?_, ?_, ?_, ?_⟩
  · rw [hdone', hdone]
  · rw [hcompleted', hcompleted]
  · rw [hearned', hearned]
  · rw [hxp', t.xpOf_view]

-- Alone, an unlock finds the row locked and adds its bonus to what is accounted for.
theorem AchievementsService.Unlocking.achievementXp_view {achievement : Achievement}
    (t : Unlocking R me userId achievement s s')
    (hsame : db.userAchievements.find? (userId, achievement.id) =
      t.atUpsert.db.userAchievements.find? (userId, achievement.id))
    (hlocked : ¬Unlocked userId achievement.id db) : (view Stmt db [t.write]).achievementXp u =
      db.achievementXp u + if userId = u then db.bonusOf achievement.id else 0 := by
  rcases t.upsert with ⟨row, hrow, hw⟩ | ⟨hnone, _, hw⟩
  · have hfound := hsame.trans hrow
    have hopen : row.unlockedAt = none := by
      simpa [Unlocked, World.unlockedAt, hfound] using hlocked
    rw [hw]
    exact achievements_unlock hfound hopen rfl
  · have hcreate := achievements_create
      { userId := userId, achievementId := achievement.id, unlockedAt := some t.now
        progress := achievement.targetValue.getD 0 } (hsame.trans hnone) u
    rw [hw]
    simpa using hcreate

end Totals

theorem emits_ledger (definitions : Table Achievement.id) (me : ℕ) :
    Emits (ledgerRules definitions) me := by
  intro s e h
  exact LedgerInv.commit_same h (fun _ => rfl) (fun _ => rfl) (fun _ => rfl) fun _ => rfl

section Quests

variable {definitions : Table Achievement.id} {me : ℕ} {host : Host} {userId questId : Id}
  {s : Store World Write}

-- A `start` that reaches its upsert with a quest that is not finished.
theorem wp_start_ledger (hopen : (s.db.quests.find? questId).map Quest.status = some .PUBLISHED →
    ¬Completed userId questId s.db) :
    (ledgerRules definitions).wp me (fun _ _ => True) (start userId questId) s := by
  apply wp_start (emits_ledger definitions me)
  · intro s₁ s' quest row now hr₁ hquest hpublished hr hrow
    have h : LedgerInv definitions s'.db := Rules.rely_inv _ hr
    have hstore₁ : s₁ = s := hr₁.2
    have hstore : s' = s := hr.2.trans hstore₁
    have hrow' : row.status ≠ .COMPLETED := by
      intro hstatus
      rw [hstore₁] at hquest
      rw [hstore] at hrow
      refine hopen (by rw [hquest, Option.map_some, hpublished]) ?_
      rw [Completed, hrow, Option.map_some, hstatus]
    have htotals (u : Id) := completions_open (u := u) hrow hrow'
      (d := { status := some .STARTED, startedAt := some now })
      (by simp [QuestCompletionUpdate.apply])
    exact h.commit_same (fun _ => rfl) (fun u => (htotals u).1) (fun _ => rfl)
      fun u => earned_congr (htotals u).2 rfl rfl
  · intro s' hr hnone _
    have h : LedgerInv definitions s'.db := Rules.rely_inv _ hr
    have htotals := completions_create
      { userId := userId, questId := questId, startedAt := s'.db.clock } hnone (by simp)
    exact h.commit_same (fun _ => rfl) (fun u => (htotals u).1) (fun _ => rfl)
      fun u => earned_congr (htotals u).2 rfl rfl

theorem wp_complete_ledger {proof : Option CompletionProof} :
    (ledgerRules definitions).wp me (fun _ _ => True) (complete host userId questId proof) s := by
  refine wp_complete (emits_ledger definitions me) fun quest s₁ s' t _ => ?_
  have h : LedgerInv definitions s'.db := Rules.rely_inv _ t.to_commit
  obtain ⟨row, hrow⟩ := t.still_user
  have htotals (u : Id) := t.totals (u := u) hrow (completion_alone t)
  exact h.commit _ _ (fun u => (htotals u).1) (fun u => (htotals u).2.1) (t.xpOf_paid hrow)
    fun u => (htotals u).2.2

theorem wp_checkInLocation_ledger {locationId : Id} {body : QuestCheckInBody} :
    (ledgerRules definitions).wp me (fun _ _ => True)
      (checkInLocation host userId questId locationId body) s := by
  apply wp_checkInLocation (emits_ledger definitions me)
  · intro quest s₁ s₂ s' t _ _ _ hr
    have h : LedgerInv definitions s'.db := Rules.rely_inv _ hr
    have htotals := t.totals s'.db
    exact h.commit_same (fun u => (htotals u).1) (fun u => (htotals u).2.1) (fun _ => t.xpOf_view)
      fun u => (htotals u).2.2
  · intro quest seen s₁ s₂ s' t fin _ _ _
    have h : LedgerInv definitions s'.db := Rules.rely_inv _ fin.to_commit
    have hlast := lastCheckIn_totals t fin
    exact h.commit _ _ (fun u => (hlast u).1) (fun u => (hlast u).2.1)
      (fun u => (hlast u).2.2.2) fun u => (hlast u).2.2.1

end Quests

section Unlocks

variable {definitions : Table Achievement.id} {me : ℕ} {userId : Id} {achievement : Achievement}
  {s₀ s s₁ : Store World Write}

-- What an unlock adds to the rows, seen from where its first write is made.
theorem achievementXp_unlock (t : Unlocking (ledgerRules definitions) me userId achievement s s₁)
    (hr : (ledgerRules definitions).rely me [] s₀ s)
    (hlocked : ¬Unlocked userId achievement.id s₀.db)
    (hdefined : s₁.db.achievements.find? achievement.id = some achievement) (u : Id) :
    (view Stmt s₁.db [t.write]).achievementXp u =
      s₁.db.achievementXp u + if userId = u then max 0 achievement.xpBonus else 0 := by
  obtain ⟨hupsert, hnext⟩ := unlocked_alone t
  have hstart : s = s₀ := hr.2
  have hsame : s₁.db.userAchievements.find? (userId, achievement.id) =
      t.atUpsert.db.userAchievements.find? (userId, achievement.id) := t.same
  have hstill : ¬Unlocked userId achievement.id s₁.db := by rwa [hnext, hstart]
  rw [t.achievementXp_view hsame hstill, bonusOf_eq hdefined]

theorem completions_unlock {R : Rules Stmt} (t : Unlocking R me userId achievement s s₁)
    (db : World) : (view Stmt db [t.write]).completions = db.completions := by
  rcases t.upsert with ⟨_, _, hw⟩ | ⟨_, _, hw⟩ <;> rw [hw] <;> rfl

theorem rows_unlock {R : Rules Stmt} (t : Unlocking R me userId achievement s s₁) (db : World)
    (u : Id) : (view Stmt db [t.write]).completedQuests u = db.completedQuests u ∧
      (view Stmt db [t.write]).questXp u = db.questXp u ∧
        (view Stmt db [t.write]).redeemedInvites u = db.redeemedInvites u ∧
          (view Stmt db [t.write]).questsDoneOf u = db.questsDoneOf u := by
  rcases t.upsert with ⟨_, _, hw⟩ | ⟨_, _, hw⟩ <;> rw [hw] <;> exact ⟨rfl, rfl, rfl, rfl⟩

-- The payment of a bonus counts no quest.
theorem questsDoneOf_paid {R : Rules Stmt} (t : Unlocking R me userId achievement s s₁)
    (user : User) (db : World) (u : Id) :
    (view Stmt db [t.write, bonusWrite userId achievement,
      levelWrite userId achievement user]).questsDoneOf u = db.questsDoneOf u := by
  have hbonus : (view Stmt db [t.write, bonusWrite userId achievement]).questsDoneOf u =
      (view Stmt db [t.write]).questsDoneOf u := questsDoneOf_keep rfl
  have hlevel : (view Stmt db [t.write, bonusWrite userId achievement,
      levelWrite userId achievement user]).questsDoneOf u =
        (view Stmt db [t.write, bonusWrite userId achievement]).questsDoneOf u :=
    questsDoneOf_keep rfl
  exact hlevel.trans (hbonus.trans (rows_unlock t db u).2.2.2)

theorem earned_unlock (t : Unlocking (ledgerRules definitions) me userId achievement s s₁)
    (hr : (ledgerRules definitions).rely me [] s₀ s)
    (hlocked : ¬Unlocked userId achievement.id s₀.db) (hs₁ : LedgerInv definitions s₁.db)
    (hdefined : Defined (ledgerRules definitions) achievement) (u : Id) :
    (view Stmt s₁.db [t.write]).earned u =
      s₁.db.earned u + if userId = u then max 0 achievement.xpBonus else 0 := by
  have hfound : s₁.db.achievements.find? achievement.id = some achievement := by
    obtain ⟨s', hs', hfound⟩ := hdefined
    rwa [hs₁.achievements_eq, ← LedgerInv.achievements_eq hs']
  obtain ⟨_, hquestXp, hredeemed, _⟩ := rows_unlock t s₁.db u
  rw [World.earned, hquestXp, hredeemed, achievementXp_unlock t hr hlocked hfound, World.earned]
  omega

end Unlocks

theorem achievementCommits_ledger (definitions : Table Achievement.id) (me : ℕ) (userId : Id) :
    AchievementCommits (ledgerRules definitions) me userId where
  levelUp _ _ _ h := h.commit_same (fun _ => rfl) (fun _ => rfl) (fun _ => rfl) fun _ => rfl
  free achievement s₀ s s' t hdefined hr hlocked hfree := by
    have h : LedgerInv definitions s'.db := Rules.rely_inv _ t.to_next
    have hrows := rows_unlock t s'.db
    exact h.commit (fun _ => 0) _ (fun u => (hrows u).2.2.2) (fun u => (hrows u).1)
      (fun u => t.xpOf_free hfree s'.db) (earned_unlock t hr hlocked h hdefined)
  paid achievement s₀ s s₁ s' t p hdefined hr hlocked hpos := by
    have h : LedgerInv definitions s'.db := Rules.rely_inv _ p.to_commit
    have hstore : s' = s₁ := p.to_commit.2.trans p.to_level.2
    subst hstore
    have hrows := rows_unlock t s'.db
    exact h.commit (fun _ => 0) _ (questsDoneOf_paid t p.user s'.db) (fun u => (hrows u).1)
      (fun u => t.xpOf_paid p hpos) (earned_unlock t hr hlocked h hdefined)
  unlocked _ _ _ _ _ _ _ _ _ hr := by
    have h := Rules.rely_inv _ hr
    exact LedgerInv.commit_same h (fun _ => rfl) (fun _ => rfl) (fun _ => rfl) fun _ => rfl
  progress achievementId s row progress h hfound := by
    exact h.commit_same (fun _ => rfl) (fun _ => rfl) (fun _ => rfl)
      fun u => earned_congr rfl (achievements_keep rfl) rfl
  create achievementId s progress h hfree _ := by
    refine h.commit_same (fun _ => rfl) (fun _ => rfl) (fun _ => rfl) fun u => ?_
    have hcreate := achievements_create
      { userId := userId, achievementId := achievementId, progress := progress } hfree u
    simp only [Option.isSome_none, Bool.false_eq_true, and_false, if_false, Int.add_zero] at hcreate
    exact earned_congr rfl hcreate rfl

section Registrations

variable {definitions : Table Achievement.id} {me : ℕ} {host : Host} {dto : RegisterDto}
  {ids : FreshIds} {token : String} {s s' : Store World Write}

theorem rows_redeem {R : Rules Stmt} (t : Redeeming R me host dto ids token s s') (db : World) :
    (view Stmt db t.writes).completions = db.completions ∧
      (view Stmt db t.writes).userAchievements = db.userAchievements ∧
        (view Stmt db t.writes).achievements = db.achievements := by
  rw [Redeeming.writes, view_append, view_append]
  show (view Stmt _ t.befriend.writes).completions = _ ∧
    (view Stmt _ t.befriend.writes).userAchievements = _ ∧
      (view Stmt _ t.befriend.writes).achievements = _
  rcases t.befriend.made with ⟨_, _, hw⟩ | ⟨_, _, _, hw⟩ <;> rw [hw] <;> exact ⟨rfl, rfl, rfl⟩

theorem questsDoneOf_redeem {R : Rules Stmt} (t : Redeeming R me host dto ids token s s') (u : Id) :
    (view Stmt s'.db t.writes).questsDoneOf u = s'.db.questsDoneOf u := by
  let before := view Stmt s'.db ([.userCreate (newUser host dto ids.user), t.claim.write] ++
    t.befriend.writes)
  have hbefore : before.questsDoneOf u = s'.db.questsDoneOf u := by
    rw [World.questsDoneOf, t.users_before]
    exact questsDoneOf_create t.user_free rfl
  have hinviter : (before.apply (referralWrite t.award.inviter
      t.claim.invite.inviterId)).questsDoneOf u = before.questsDoneOf u := questsDoneOf_keep rfl
  rw [Redeeming.writes, view_append, ← hbefore, ← hinviter]
  exact questsDoneOf_keep rfl

-- Alone, a redemption reads its invite and its inviter as they are when it commits.
theorem redeeming_alone {I : World → Prop}
    (t : Redeeming (Rules.alone I) me host dto ids token s s') :
    s'.db.invites.find? t.claim.invite.id = some t.claim.invite ∧
      s'.db.users.find? t.claim.invite.inviterId = some t.award.inviter := by
  obtain ⟨hinvite, hclaimed, _, _, hinviter⟩ := t.alone
  constructor
  · have hfound : t.claim.atInvite.db.invites.find? t.claim.invite.id = some t.claim.invite :=
      Table.find?_of_mem (List.mem_of_find?_eq_some t.claim.invite_found)
    rwa [hinvite] at hfound
  · have hfound := t.award.inviter_found
    rwa [t.find?_inviter, hinviter] at hfound

theorem inviterXp_alone {I : World → Prop}
    (t : Redeeming (Rules.alone I) me host dto ids token s s') :
    (s'.db.users.find? t.claim.invite.inviterId).map User.xp = some t.award.inviter.xp := by
  rw [(redeeming_alone t).2, Option.map_some]

-- Alone, a registration still finds its id free when it commits.
theorem registering_alone {I : World → Prop}
    (r : Registering (Rules.alone I) me host dto ids s s') :
    s'.db.users.find? ids.user = none := by
  have hstore : s' = r.atCreate := r.to_next.2
  rw [hstore]
  exact r.free

theorem earned_redeem (t : Redeeming (ledgerRules definitions) me host dto ids token s s')
    (u : Id) :
    (view Stmt s'.db t.writes).earned u = s'.db.earned u +
      ((if t.claim.invite.inviterId = u then REFERRAL_XP else 0) +
        if ids.user = u then REFERRAL_XP else 0) := by
  obtain ⟨hcompletions, huserAchievements, hachievements⟩ := rows_redeem t s'.db
  have hquestXp : (view Stmt s'.db t.writes).questXp u = s'.db.questXp u := by
    rw [World.questXp, hcompletions]
    rfl
  have hachievementXp : (view Stmt s'.db t.writes).achievementXp u = s'.db.achievementXp u := by
    simp only [World.achievementXp, World.bonusOf, huserAchievements, hachievements]
  have hredeemed : (view Stmt s'.db t.writes).redeemedInvites u = (s'.db.apply
      (claimWrite t.claim.invite.id ids.user t.claim.acceptedAt)).redeemedInvites u := by
    rw [World.redeemedInvites, t.invites_view]
    rfl
  rw [World.earned, hquestXp, hachievementXp, hredeemed,
    redeemedInvites_accept (redeeming_alone t).1 t.claim.pending t.claim.distinct, World.earned]
  push_cast
  simp only [Int.mul_add, mul_ite, Int.mul_one, Int.mul_zero]
  omega

end Registrations

theorem registerCommits_ledger (definitions : Table Achievement.id) (me : ℕ) (host : Host)
    (dto : RegisterDto) (ids : FreshIds) :
    RegisterCommits (ledgerRules definitions) me host dto ids where
  emits := emits_ledger definitions me
  plain s s' r _ := by
    have h : LedgerInv definitions s'.db := Rules.rely_inv _ r.to_next
    have hfree := registering_alone r
    exact h.commit_same (fun _ => questsDoneOf_create hfree rfl) (fun _ => rfl)
      (fun _ => xpOf_create hfree rfl) fun _ => rfl
  referral token s s' t _ := by
    have h : LedgerInv definitions s'.db := Rules.rely_inv _ t.award.to_commit
    obtain ⟨hcompletions, _, _⟩ := rows_redeem t s'.db
    apply h.commit (fun _ => 0) _ (questsDoneOf_redeem t) (fun u => ?_)
      (fun u => t.xpOf_view (inviterXp_alone t)) (earned_redeem t)
    rw [World.completedQuests, hcompletions]
    rfl
  session _ _ h _ :=
    h.commit_same (fun _ => questsDoneOf_keep rfl) (fun _ => rfl) (fun _ => xpOf_keep rfl)
      fun _ => rfl

-- The calls that move the counters or their rows, and time.
inductive LedgerCall where
  | register (dto : RegisterDto) (ids : FreshIds)
  | start (userId questId : Id)
  | complete (userId questId : Id) (proof : Option CompletionProof)
  | checkInLocation (userId questId locationId : Id) (body : QuestCheckInBody)
  | evaluateForUser (userId : Id)
  | wait (elapsed : ℕ)

def LedgerCall.after (host : Host) : LedgerCall → World → World
  | .register dto ids, w => ((AuthService.register host dto ids).alone w).2
  | .start userId questId, w => ((QuestsService.start userId questId).alone w).2
  | .complete userId questId proof, w =>
      ((QuestsService.complete host userId questId proof).alone w).2
  | .checkInLocation userId questId locationId body, w =>
      ((QuestsService.checkInLocation host userId questId locationId body).alone w).2
  | .evaluateForUser userId, w => ((AchievementsService.evaluateForUser userId).alone w).2
  | .wait elapsed, w => Backend.happen Stmt elapsed w

-- A `start` of a published quest does not find it finished by the user.
def LedgerCall.RestartsNothing : LedgerCall → World → Prop
  | .start userId questId, w =>
      (w.quests.find? questId).map Quest.status = some .PUBLISHED → ¬Completed userId questId w
  | _, _ => True

theorem LedgerInv.after (host : Host) {definitions : Table Achievement.id} {call : LedgerCall}
    {w : World} (h : LedgerInv definitions w) (hopen : call.RestartsNothing w) :
    LedgerInv definitions (call.after host w) := by
  have halone {α : Type} {p : Request α}
      (hp : (ledgerRules definitions).wp 0 (fun _ _ => True) p ⟨w, []⟩) :
      LedgerInv definitions (p.alone w).2 := (Rules.wp_alone h hp).1
  cases call with
  | register dto ids =>
      exact halone (wp_register (registerCommits_ledger definitions 0 host dto ids))
  | start userId questId => exact halone (wp_start_ledger hopen)
  | complete userId questId proof => exact halone wp_complete_ledger
  | checkInLocation userId questId locationId body => exact halone wp_checkInLocation_ledger
  | evaluateForUser userId =>
      exact halone (wp_evaluateForUser (achievementCommits_ledger definitions 0 userId))
  | wait elapsed =>
      exact { questsDone := h.questsDone, xp := h.xp, achievements_eq := h.achievements_eq }

-- A finished quest that is started again is counted by the user only.
theorem not_ledger_of_restart {w : World} (h : Balanced w) {userId questId : Id}
    (hpublished : (w.quests.find? questId).map Quest.status = some .PUBLISHED)
    (hcompleted : Completed userId questId w) : ¬Ledger ((start userId questId).alone w).2 := by
  obtain ⟨quest, hquest, hstatus⟩ := Option.map_eq_some_iff.mp hpublished
  obtain ⟨row, hrow, hdone⟩ := Option.map_eq_some_iff.mp hcompleted
  rw [start_alone hquest hstatus hrow]
  intro hledger
  have hkey : row.key = (userId, questId) := Table.key_of_find? hrow
  have huser : row.userId = userId := (Prod.mk.inj hkey).1
  let d : QuestCompletionUpdate := { status := some .STARTED, startedAt := some w.clock }
  have hfewer : (w.apply (.completionUpdate userId questId d)).completedQuests userId + 1 =
      w.completedQuests userId := by
    have hsum := Table.sum_modify hrow d.apply d.key_apply fun c : QuestCompletion =>
      if decide (c.userId = userId ∧ c.status = .COMPLETED) then 1 else 0
    simpa [World.completedQuests, Table.count_eq_sum, World.apply, d, QuestCompletionUpdate.apply,
      huser, hdone] using hsum
  have hcounted := h.questsDone userId
  rw [World.questsDoneOf] at hcounted
  cases hfound : w.users.find? userId with
  | none =>
      rw [hfound, Option.elim_none] at hcounted
      omega
  | some user =>
      have hid : user.id = userId := Table.key_of_find? hfound
      have hstill : user.questsDone = (w.apply (.completionUpdate userId questId d)).completedQuests
          user.id := hledger.questsDone user (Table.mem_of_find? hfound)
      rw [hfound, Option.elim_some] at hcounted
      rw [hid] at hstill
      omega

-- The counters of every user agree with the rows all along, exactly if no finished quest
-- is started again.
theorem ledger_iff_restartsNothing (host : Host) {w : World} (hw : Ledger w)
    (hkeys : w.ForeignKeys) (calls : List LedgerCall) :
    (∀ before, before <+: calls → Ledger (oneByOne (LedgerCall.after host) before w)) ↔
      EachMeets (LedgerCall.after host) LedgerCall.RestartsNothing calls w := by
  apply forall_prefix_iff_eachMeets (LedgerInv w.achievements)
  · exact fun _ _ _ hinv hopen => LedgerInv.after host hinv hopen
  · exact fun _ hinv => hinv.toBalanced.ledger
  · intro call _ db hinv hrestart
    cases call with
    | start userId questId =>
        obtain ⟨hpublished, hcompleted⟩ := Classical.not_imp.mp hrestart
        exact not_ledger_of_restart hinv.toBalanced hpublished (Classical.not_not.mp hcompleted)
    | _ => exact absurd trivial hrestart
  · exact ⟨hw.balanced hkeys, rfl⟩

theorem ledger_onTheTrail : Ledger onTheTrail := by
  have hhiker : ∀ user ∈ onTheTrail.users.rows, user = hiker := by
    intro user hmem
    simpa [onTheTrail, Table.insert, Table.empty] using hmem
  constructor
  · intro user hmem
    rw [hhiker user hmem]
    decide +kernel
  · intro user hmem
    rw [hhiker user hmem]
    decide +kernel

-- Starting a quest and finishing it.
theorem ledger_start_complete : Ledger (oneByOne (LedgerCall.after .plain)
    [.start 1 1, .complete 1 1 none] onTheTrail) := by
  have hmeets : EachMeets (LedgerCall.after .plain) LedgerCall.RestartsNothing
      [.start 1 1, .complete 1 1 none] onTheTrail := by
    refine ⟨fun _ => ?_, trivial, trivial⟩
    decide +kernel
  exact (ledger_iff_restartsNothing .plain ledger_onTheTrail foreignKeys_onTheTrail _).mpr hmeets _
    (List.prefix_refl _)

-- Starting it once more.
theorem ledger_broken_by_restart : Ledger onTheTrail ∧ onTheTrail.ForeignKeys ∧
    ¬Ledger (oneByOne (LedgerCall.after .plain) [.start 1 1, .complete 1 1 none, .start 1 1]
      onTheTrail) := by
  refine ⟨ledger_onTheTrail, foreignKeys_onTheTrail, fun h => ?_⟩
  let final := oneByOne (LedgerCall.after .plain) [.start 1 1, .complete 1 1 none, .start 1 1]
    onTheTrail
  have hcounters : ((final.users.find? 1).map User.questsDone, final.completedQuests 1) =
      (some 1, 0) := by decide +kernel
  obtain ⟨hdone, hcompleted⟩ := Prod.mk.inj hcounters
  obtain ⟨user, hfound, hone⟩ := Option.map_eq_some_iff.mp hdone
  have hledger := h.questsDone user (Table.mem_of_find? hfound)
  have hid : user.id = 1 := Table.key_of_find? hfound
  rw [hid, hone] at hledger
  rw [← hledger] at hcompleted
  cases hcompleted

end SideQuest
