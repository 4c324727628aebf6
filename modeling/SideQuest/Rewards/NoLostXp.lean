import SideQuest.Rewards.Levels

-- No award is lost, as long as no referral overwrites XP that it has not read.

namespace SideQuest

open ReadCommitted QuestsService AchievementsService InvitesService AuthService

-- An update that stores a total finds the XP that its transaction has read.
def storesCurrentXp : Guard Stmt World := fun seen _ st w =>
  match st with
  | .userUpdate id d =>
      match d.xp with
      | .set _ => ReadsCurrentXp id seen w
      | _ => true
  | _ => true

structure XpInv (w : World) (s : Store World Write) : Prop where
  xp : ∀ userId, s.db.xpOf userId = w.xpOf userId + awardedIn w userId s.wal
  achievements_eq : s.db.achievements = w.achievements
  inviters : ∀ id, (s.db.invites.find? id).map Invite.inviterId =
    (w.invites.find? id).map Invite.inviterId

abbrev xpContract (w : World) : Contract Stmt World Write := .ofInv (XpInv w) storesCurrentXp

section

variable {w : World} {s : Store World Write} {me : ℕ} {ws : List Write}

-- A commit that pays what it awards.
theorem XpInv.commit (h : XpInv w s)
    (hxp : ∀ userId, (view Stmt s.db ws).xpOf userId = s.db.xpOf userId + awarded w userId ws)
    (hinviters : ∀ id, ((view Stmt s.db ws).invites.find? id).map Invite.inviterId =
      (s.db.invites.find? id).map Invite.inviterId) : (xpContract w).rules.Commits me s ws := by
  refine ⟨⟨fun userId => ?_, ?_, fun id => ?_⟩, trivial⟩
  · rw [Store.commit_db, awardedIn_commit, hxp, h.xp, Int.add_assoc]
  · rw [Store.commit_db, view_achievements, h.achievements_eq]
  · rw [Store.commit_db, hinviters, h.inviters]

-- A commit that neither pays nor awards.
theorem XpInv.commit_unpaid (h : XpInv w s)
    (hxp : ∀ userId, (view Stmt s.db ws).xpOf userId = s.db.xpOf userId)
    (hawarded : ∀ userId, awarded w userId ws = 0)
    (hinvites : (view Stmt s.db ws).invites = s.db.invites) :
    (xpContract w).rules.Commits me s ws := by
  apply h.commit
  · intro userId
    rw [hxp, hawarded, Int.add_zero]
  · intro id
    rw [hinvites]

end

theorem questCommits_xp (w : World) (me : ℕ) (host : Host) (userId questId : Id) :
    QuestCommits (xpContract w).rules me host userId questId where
  emits _ _ h := h.commit_unpaid (fun _ => rfl) (fun _ => rfl) rfl
  again _ _ _ h _ := h.commit_unpaid (fun _ => rfl) (fun _ => by simp [Write.award]) rfl
  new _ h _ _ := h.commit_unpaid (fun _ => rfl) (fun _ => rfl) rfl
  finalize quest proof s s' t _ := by
    have h : XpInv w s' := Rules.rely_inv _ t.to_commit
    obtain ⟨row, hrow⟩ := t.still_user
    exact h.commit (fun _ => t.xpOf_view hrow) fun _ => rfl
  step quest locationId body s s₁ s' t _ _ _ hr := by
    have h : XpInv w s' := Rules.rely_inv _ hr
    exact h.commit_unpaid (fun _ => t.xpOf_view) (fun _ => t.awarded) rfl
  last quest locationId body seen s s₁ s' t fin _ _ _ := by
    have h : XpInv w s' := Rules.rely_inv _ fin.to_commit
    exact h.commit (fun _ => t.xpOf_view_last fin) fun _ => rfl

section Unlock

variable {w : World} {me : ℕ} {userId : Id} {achievement : Achievement} {s s' : Store World Write}

theorem defined_xp (h : Defined (xpContract w).rules achievement) :
    w.achievements.find? achievement.id = some achievement := by
  obtain ⟨s, hs, hfound⟩ := h
  rw [← XpInv.achievements_eq hs]
  exact hfound

theorem invites_unlock {R : Rules Stmt} (t : Unlocking R me userId achievement s s')
    (db : World) : (view Stmt db [t.write]).invites = db.invites := by
  rcases t.upsert with ⟨_, _, hw⟩ | ⟨_, _, hw⟩ <;> rw [hw] <;> rfl

end Unlock

theorem achievementCommits_xp (w : World) (me : ℕ) (userId : Id) :
    AchievementCommits (xpContract w).rules me userId where
  levelUp _ _ _ h := h.commit_unpaid (fun _ => rfl) (fun _ => rfl) rfl
  free achievement s₀ s s' t hdefined _ _ hfree := by
    have h : XpInv w s' := Rules.rely_inv _ t.to_next
    apply h.commit
    · intro v
      rw [t.xpOf_free hfree, t.awarded, bonusOf_eq (defined_xp hdefined)]
    · exact fun id => by rw [invites_unlock t]
  paid achievement s₀ s s₁ s' t p hdefined _ _ hpos := by
    have h : XpInv w s' := Rules.rely_inv _ p.to_commit
    apply h.commit
    · intro v
      have hupdates : awarded w v [bonusWrite userId achievement,
          levelWrite userId achievement p.user] = 0 := rfl
      rw [t.xpOf_paid p hpos, ← List.singleton_append, awarded_append, hupdates, Int.add_zero,
        t.awarded, bonusOf_eq (defined_xp hdefined)]
    · intro id
      rw [← List.singleton_append, view_append]
      show ((view Stmt s'.db [t.write]).invites.find? id).map _ = _
      rw [invites_unlock t]
  unlocked _ _ _ _ _ _ _ _ _ hr := by
    have h := Rules.rely_inv _ hr
    exact XpInv.commit_unpaid h (fun _ => rfl) (fun _ => rfl) rfl
  progress _ _ _ _ h _ := h.commit_unpaid (fun _ => rfl) (fun _ => by simp [Write.award]) rfl
  create _ _ _ h _ _ := h.commit_unpaid (fun _ => rfl) (fun _ => by simp [Write.award]) rfl

section Redeem

variable {w : World} {me : ℕ} {host : Host} {dto : RegisterDto} {ids : FreshIds} {token : String}
  {s s' : Store World Write}

-- The guard at the inviter's update speaks about the row as it is at the commit.
theorem inviter_read (t : Redeeming (xpContract w).rules me host dto ids token s s') :
    (s'.db.users.find? t.claim.invite.inviterId).map User.xp = some t.award.inviter.xp := by
  have hguard : ReadsCurrentXp t.claim.invite.inviterId
      (⟨.userFindUnique ids.user, some t.award.invitee⟩ ::
        ⟨.userFindUnique t.claim.invite.inviterId, some t.award.inviter⟩ :: t.seen)
      (view Stmt t.award.atInviterXp.db
        ([.userCreate (newUser host dto ids.user), t.claim.write] ++ t.befriend.writes)) :=
    of_decide_eq_true t.award.inviter_guard
  have hne : ids.user ≠ t.claim.invite.inviterId := Ne.symm t.claim.distinct
  simp only [ReadsCurrentXp, lastRead, if_neg hne, if_true, Option.map_some, t.find?_inviter]
    at hguard
  rw [t.award.same_inviterRow, ← hguard]

-- The invite that the transaction has read is one of the initial ones.
theorem inviter_known (t : Redeeming (xpContract w).rules me host dto ids token s s') :
    (w.invites.find? t.claim.invite.id).map Invite.inviterId = some t.claim.invite.inviterId := by
  have h : XpInv w t.claim.atInvite := Rules.rely_inv _ t.claim.to_invite
  have hfound : t.claim.atInvite.db.invites.find? t.claim.invite.id = some t.claim.invite :=
    Table.find?_of_mem (List.mem_of_find?_eq_some t.claim.invite_found)
  rw [← h.inviters, hfound, Option.map_some]

end Redeem

theorem registerCommits_xp (w : World) (me : ℕ) (host : Host) (dto : RegisterDto) (ids : FreshIds) :
    RegisterCommits (xpContract w).rules me host dto ids where
  emits _ _ h := h.commit_unpaid (fun _ => rfl) (fun _ => rfl) rfl
  plain s s' r _ := by
    have h : XpInv w s' := Rules.rely_inv _ r.to_next
    have hfree : s'.db.users.find? ids.user = none := by
      have hsame := Rules.rely_same _ r.to_next (.user ids.user) (by simp [Write.locks, newUser])
      exact Eq.trans hsame r.free
    exact h.commit_unpaid (fun _ => xpOf_create hfree rfl) (fun _ => rfl) rfl
  referral token s s' t _ := by
    have h : XpInv w s' := Rules.rely_inv _ t.award.to_commit
    apply h.commit
    · intro v
      rw [t.xpOf_view (inviter_read t), t.awarded (inviter_known t)]
    · intro id
      rw [t.invites_view, Table.find?_modify]
      split
      · rw [Option.map_map]
        rfl
      · rfl
  session _ _ h _ := h.commit_unpaid (fun _ => xpOf_keep rfl) (fun _ => rfl) rfl

-- The requests that pay XP.
def PayingRequest (host : Host) (p : Request Unit) : Prop :=
  RewardRequest host p ∨ ∃ dto ids, p = (register host dto ids).void

-- As long as every referral stores totals of the XP that is there, every user has the
-- initial XP and what the commits have awarded.
theorem noLostXp_of_reaches (host : Host) {w : World} {s : System Stmt World Write ApiError}
    (h : System.Reaches (PayingRequest host) storesCurrentXp (System.init w) s) (userId : Id) :
    s.store.db.xpOf userId = w.xpOf userId + awardedIn w userId s.store.wal := by
  have hinit : XpInv w ⟨w, []⟩ := ⟨fun _ => (Int.add_zero _).symm, rfl, fun _ => rfl⟩
  have hsafe := System.Reaches.safe (C := xpContract w) (fun p hp me st _ => ?_)
    (fun a st hst => ⟨⟨hst.xp, hst.achievements_eq, hst.inviters⟩, trivial⟩)
    (System.init_safe hinit) h
  · exact hsafe.1.inv.xp userId
  · rcases hp with (⟨userId, questId, hp⟩ | ⟨userId, rfl⟩) | ⟨dto, ids, rfl⟩
    · exact hp.wp (questCommits_xp w me host userId questId)
    · exact wp_evaluateForUser (achievementCommits_xp w me userId)
    · exact Rules.wp_void (wp_register (registerCommits_xp w me host dto ids))

-- The hiker has started a quest of 100 XP and sent an invite.
def invitingHiker : World := { onTheTrail with invites := Table.empty.insert invitation }

def questAndReferral : List (Request Unit) :=
  [(complete .plain 1 1 none).void, (register .plain (guest "guest") ⟨2, 1⟩).void]

theorem questAndReferral_requests : ∀ p ∈ questAndReferral, PayingRequest .plain p := by
  intro p hp
  simp only [questAndReferral, List.mem_cons, List.not_mem_nil, or_false] at hp
  rcases hp with rfl | rfl
  · exact Or.inl (Or.inl ⟨1, 1, .complete none⟩)
  · exact Or.inr ⟨_, _, rfl⟩

-- One after the other they pay 150 XP.
theorem noLostXp_quest_then_referral : ∃ s : System Stmt World Write ApiError,
    s.store.db.xpOf 1 = invitingHiker.xpOf 1 + awardedIn invitingHiker 1 s.store.wal ∧
      s.store.db.xpOf 1 = 150 := by
  obtain ⟨s, hs, hobs⟩ := System.exists_reaches_of_interleave (PayingRequest .plain)
    storesCurrentXp (System.init invitingHiker) questAndReferral
    (List.replicate 9 0 ++ List.replicate 16 1) (fun s => s.store.db.xpOf 1) 150
    questAndReferral_requests (by decide +kernel)
  exact ⟨s, noLostXp_of_reaches .plain hs 1, hobs⟩

-- The referral reads 0 XP, the quest is completed, and the referral stores 50 XP.
theorem referral_overwrites_quest_xp : ∃ s : System Stmt World Write ApiError,
    System.Reaches (PayingRequest .plain) Guard.none (System.init invitingHiker) s ∧
      s.store.db.xpOf 1 ≠ invitingHiker.xpOf 1 + awardedIn invitingHiker 1 s.store.wal := by
  obtain ⟨s, hs, hobs⟩ := System.exists_reaches_of_interleave (PayingRequest .plain)
    Guard.none (System.init invitingHiker) questAndReferral
    (List.replicate 13 1 ++ List.replicate 9 0 ++ List.replicate 3 1)
    (fun s => (s.store.db.xpOf 1, awardedIn invitingHiker 1 s.store.wal)) (50, 150)
    questAndReferral_requests (by decide +kernel)
  obtain ⟨hxp, hawarded⟩ := Prod.mk.inj hobs
  refine ⟨s, hs, ?_⟩
  rw [hxp, hawarded]
  decide +kernel

end SideQuest
