import SideQuest.Model.Auth
import SideQuest.Model.CallLemmas

-- The redemption of an invite in the transaction of `register`: claiming the invite,
-- making the friendship, paying both sides.

namespace SideQuest

open ReadCommitted

namespace InvitesService

abbrev claimWrite (inviteId inviteeId : Id) (acceptedAt : Time) : Write :=
  .inviteUpdate inviteId
    { status := .ACCEPTED, inviteeId := some inviteeId, acceptedAt := some acceptedAt }

abbrev referralWrite (before : User) (userId : Id) : Write :=
  .userUpdate userId (referralData before)

section

variable (R : Rules Stmt) (me : ℕ) (token : String) (inviterId inviteeId newId : Id)
  (seen : List (Seen Stmt)) (ws : List Write) (s s' : Store World Write)

-- A claim that started at `s` after the writes `ws`, and has gone through by `s'`.
structure Claiming where
  invite : Invite
  acceptedAt : Time
  atInvite : Store World Write
  atClaim : Store World Write
  to_invite : R.rely me (locksOf Stmt ws) s atInvite
  invite_found : (view Stmt atInvite.db ws).inviteByToken token = some invite
  pending : invite.status = .PENDING
  distinct : invite.inviterId ≠ inviteeId
  to_claim : R.rely me (locksOf Stmt ws) atInvite atClaim
  claim_found : ∃ row, (view Stmt atClaim.db ws).invites.find? invite.id = some row ∧
    row.status = .PENDING ∧ row.token = token
  to_next : R.rely me (locksOf Stmt (ws ++ [claimWrite invite.id inviteeId acceptedAt])) atClaim s'

-- The friendship of inviter and invitee, as it was found or has been created.
structure Befriending where
  friendshipId : Id
  writes : List Write
  atFind : Store World Write
  atCreate : Store World Write
  to_find : R.rely me (locksOf Stmt ws) s atFind
  to_create : R.rely me (locksOf Stmt ws) atFind atCreate
  made :
    (∃ f, (view Stmt atFind.db ws).friendshipBetween inviterId inviteeId = some f ∧ writes = []) ∨
    ((view Stmt atFind.db ws).friendshipBetween inviterId inviteeId = none ∧
      (view Stmt atCreate.db ws).friendships.find? newId = none ∧
      ∃ now, writes = [.friendshipCreate (referralFriendship inviterId inviteeId newId now)])
  to_next : R.rely me (locksOf Stmt (ws ++ writes)) atCreate s'

-- The two payments, from the two reads at `s` on.
structure Awarding where
  inviter : User
  invitee : User
  atInviter : Store World Write
  atInvitee : Store World Write
  atInviterXp : Store World Write
  atInviteeXp : Store World Write
  to_inviter : R.rely me (locksOf Stmt ws) s atInviter
  inviter_found : (view Stmt atInviter.db ws).users.find? inviterId = some inviter
  to_invitee : R.rely me (locksOf Stmt ws) atInviter atInvitee
  invitee_found : (view Stmt atInvitee.db ws).users.find? inviteeId = some invitee
  to_inviterXp : R.rely me (locksOf Stmt ws) atInvitee atInviterXp
  inviter_guard : R.guard
    (⟨.userFindUnique inviteeId, some invitee⟩ :: ⟨.userFindUnique inviterId, some inviter⟩ :: seen)
    (.userUpdate inviterId (referralData inviter)) (view Stmt atInviterXp.db ws) = true
  inviter_still : ∃ row, (view Stmt atInviterXp.db ws).users.find? inviterId = some row
  to_inviteeXp : R.rely me (locksOf Stmt (ws ++ [referralWrite inviter inviterId])) atInviterXp
    atInviteeXp
  invitee_still : ∃ row, (view Stmt atInviteeXp.db
    (ws ++ [referralWrite inviter inviterId])).users.find? inviteeId = some row
  to_commit : R.rely me (locksOf Stmt
    (ws ++ [referralWrite inviter inviterId, referralWrite invitee inviteeId])) atInviteeXp s'

end

variable {R : Rules Stmt} {me : ℕ} {token : String} {inviterId inviteeId newId : Id}
  {seen : List (Seen Stmt)} {ws : List Write} {s s' : Store World Write}

def Claiming.write (c : Claiming R me token inviteeId ws s s') : Write :=
  claimWrite c.invite.id inviteeId c.acceptedAt

def Awarding.writes (a : Awarding R me inviterId inviteeId seen ws s s') : List Write :=
  [referralWrite a.inviter inviterId, referralWrite a.invitee inviteeId]

def Awarding.outcome (a : Awarding R me inviterId inviteeId seen ws s s') (friendshipId : Id) :
    ReferralTxOutcome :=
  ⟨friendshipId, inviterId, inviteeId,
    a.inviter.level, levelFromXp (a.inviter.xp + REFERRAL_XP),
    a.invitee.level, levelFromXp (a.invitee.xp + REFERRAL_XP)⟩

-- The payments may wait before they are committed.
def Awarding.later {s'' : Store World Write}
    (a : Awarding R me inviterId inviteeId seen ws s s')
    (hr : R.rely me (locksOf Stmt (ws ++ a.writes)) s' s'') :
    Awarding R me inviterId inviteeId seen ws s s'' :=
  { a with to_commit := R.rely_trans a.to_commit hr }

-- The locks of the transaction so far hold through each part of a redemption.
section Held

variable {l : Lock} (hl : l ∈ locksOf Stmt ws)

include hl

theorem mem_locksOf_append (ws' : List Write) : l ∈ locksOf Stmt (ws ++ ws') := by
  rw [locksOf_append]
  exact List.mem_append_left _ hl

theorem Claiming.same_claim (c : Claiming R me token inviteeId ws s s') :
    l.same s.db c.atClaim.db := by
  have hinvite := R.rely_same c.to_invite l hl
  have hclaim := R.rely_same c.to_claim l hl
  exact Lock.same_trans hinvite hclaim

theorem Claiming.same (c : Claiming R me token inviteeId ws s s') : l.same s.db s'.db := by
  have hnext := R.rely_same c.to_next l (mem_locksOf_append hl _)
  exact Lock.same_trans (c.same_claim hl) hnext

theorem Befriending.same_find (b : Befriending R me inviterId inviteeId newId ws s s') :
    l.same s.db b.atFind.db := R.rely_same b.to_find l hl

theorem Befriending.same_create (b : Befriending R me inviterId inviteeId newId ws s s') :
    l.same s.db b.atCreate.db := by
  have hcreate := R.rely_same b.to_create l hl
  exact Lock.same_trans (b.same_find hl) hcreate

theorem Befriending.same (b : Befriending R me inviterId inviteeId newId ws s s') :
    l.same s.db s'.db := by
  have hnext := R.rely_same b.to_next l (mem_locksOf_append hl _)
  exact Lock.same_trans (b.same_create hl) hnext

theorem Awarding.same_inviter (a : Awarding R me inviterId inviteeId seen ws s s') :
    l.same s.db a.atInviter.db := R.rely_same a.to_inviter l hl

theorem Awarding.same_invitee (a : Awarding R me inviterId inviteeId seen ws s s') :
    l.same s.db a.atInvitee.db := by
  have hinvitee := R.rely_same a.to_invitee l hl
  exact Lock.same_trans (a.same_inviter hl) hinvitee

theorem Awarding.same (a : Awarding R me inviterId inviteeId seen ws s s') :
    l.same s.db s'.db := by
  have hinviterXp := R.rely_same a.to_inviterXp l hl
  have hinviteeXp := R.rely_same a.to_inviteeXp l (mem_locksOf_append hl _)
  have hcommit := R.rely_same a.to_commit l (mem_locksOf_append hl _)
  exact Lock.same_trans (a.same_invitee hl)
    (Lock.same_trans hinviterXp (Lock.same_trans hinviteeXp hcommit))

end Held

-- The inviter's row is locked by its update.
theorem Awarding.same_inviterRow (a : Awarding R me inviterId inviteeId seen ws s s') :
    s'.db.users.find? inviterId = a.atInviterXp.db.users.find? inviterId := by
  have hinviteeXp := R.rely_same a.to_inviteeXp (.user inviterId)
    (by simp [locksOf_append, Write.locks])
  have hcommit := R.rely_same a.to_commit (.user inviterId) (by simp [locksOf_append, Write.locks])
  exact hcommit.trans hinviteeXp

theorem Befriending.users_view (b : Befriending R me inviterId inviteeId newId ws s s')
    (db : World) : (view Stmt db b.writes).users = db.users := by
  rcases b.made with ⟨_, _, hw⟩ | ⟨_, _, _, hw⟩ <;> rw [hw] <;> rfl

theorem Befriending.invites_view (b : Befriending R me inviterId inviteeId newId ws s s')
    (db : World) : (view Stmt db b.writes).invites = db.invites := by
  rcases b.made with ⟨_, _, hw⟩ | ⟨_, _, _, hw⟩ <;> rw [hw] <;> rfl

theorem wpTx_befriend {Q : List (Seen Stmt) → List Write → Id → Store World Write → Prop}
    (h : ∀ seen' s' (b : Befriending R me inviterId inviteeId newId ws s s'),
      Q seen' (ws ++ b.writes) b.friendshipId s') :
    R.wpTx me Q (befriend inviterId inviteeId newId) seen ws s := by
  unfold befriend
  refine Rules.wpTx_query (fun _ => rfl) fun atFind to_find => ?_
  split
  · rename_i f hfound
    intro s' to_next
    obtain ⟨b, hwrites, hid⟩ : ∃ b : Befriending R me inviterId inviteeId newId ws s s',
        b.writes = [] ∧ b.friendshipId = f.id :=
      ⟨{ friendshipId := f.id, writes := [], atFind, atCreate := atFind, to_find
         to_create := R.rely_refl (R.rely_inv to_find)
         made := Or.inl ⟨f, hfound, rfl⟩
         to_next := (List.append_nil ws).symm ▸ to_next }, rfl, rfl⟩
    have hQ (seen' : List (Seen Stmt)) : Q seen' ws f.id s' := by
      have hb := h seen' s' b
      rwa [hwrites, hid, List.append_nil] at hb
    exact hQ _
  · rename_i hnone
    refine Rules.wpTx_query (fun _ => rfl) fun atNow to_now => ?_
    refine Rules.wpTx_call fun atCreate to_create _ _ _ he => ?_
    obtain ⟨hfree, _, _, _, rfl, rfl⟩ := exec_friendshipCreate he
    intro s' to_next
    exact h _ s' {
      friendshipId := newId, writes := _, atFind, atCreate, to_find
      to_create := R.rely_trans to_now to_create
      made := Or.inr ⟨hnone, hfree, _, rfl⟩
      to_next }

theorem wpTx_awardReferral
    {Q : List (Seen Stmt) → List Write → ReferralTxOutcome → Store World Write → Prop}
    {friendshipId : Id}
    (h : ∀ seen' s' (a : Awarding R me inviterId inviteeId seen ws s s'),
      Q seen' (ws ++ a.writes) (a.outcome friendshipId) s') :
    R.wpTx me Q (awardReferral friendshipId inviterId inviteeId) seen ws s := by
  unfold awardReferral
  refine Rules.wpTx_query (fun _ => rfl) fun atInviter to_inviter => ?_
  refine Rules.wpTx_query (fun _ => rfl) fun atInvitee to_invitee => ?_
  refine Rules.wpTx_expect fun inviter inviter_found => ?_
  refine Rules.wpTx_expect fun invitee invitee_found => ?_
  refine Rules.wpTx_call fun atInviterXp to_inviterXp inviter_guard _ _ he => ?_
  obtain ⟨inviterRow, hinviter, rfl, rfl⟩ := exec_userUpdate he
  refine Rules.wpTx_call fun atInviteeXp to_inviteeXp _ _ _ he => ?_
  obtain ⟨inviteeRow, hinvitee, rfl, rfl⟩ := exec_userUpdate he
  intro s' to_commit
  rw [inviter_found, invitee_found] at inviter_guard
  rw [List.append_assoc] at to_commit ⊢
  exact h _ s' {
    inviter, invitee, atInviter, atInvitee, atInviterXp, atInviteeXp, to_inviter, inviter_found
    to_invitee, invitee_found, to_inviterXp, inviter_guard
    inviter_still := ⟨inviterRow, hinviter⟩
    to_inviteeXp
    invitee_still := ⟨inviteeRow, hinvitee⟩
    to_commit }

theorem wpTx_consumeReferralInviteTx
    {Q : List (Seen Stmt) → List Write → ReferralTxOutcome → Store World Write → Prop}
    {host : Host} {inviteeEmail : String}
    (h : ∀ seen₁ seen' s₁ s₂ s' (c : Claiming R me token inviteeId ws s s₁)
      (b : Befriending R me c.invite.inviterId inviteeId newId (ws ++ [c.write]) s₁ s₂)
      (a : Awarding R me c.invite.inviterId inviteeId seen₁ (ws ++ [c.write] ++ b.writes) s₂ s'),
        Q seen' (ws ++ [c.write] ++ b.writes ++ a.writes) (a.outcome b.friendshipId) s') :
    R.wpTx me Q (consumeReferralInviteTx host token inviteeId inviteeEmail newId) seen ws s := by
  unfold consumeReferralInviteTx
  refine Rules.wpTx_query (fun _ => rfl) fun atInvite to_invite => ?_
  refine Rules.wpTx_expect fun invite invite_found => ?_
  refine Rules.wpTx_require fun pending => ?_
  refine Rules.wpTx_query (fun _ => rfl) fun atNow to_now => ?_
  refine Rules.wpTx_require fun _ => ?_
  refine Rules.wpTx_require fun _ => ?_
  refine Rules.wpTx_require fun distinct => ?_
  refine Rules.wpTx_query (fun _ => rfl) fun atAccept to_accept => ?_
  refine Rules.wpTx_call fun atClaim to_claim _ _ _ he => ?_
  refine Rules.wpTx_require fun hclaimed => ?_
  obtain ⟨row, hrow, hpending, htoken, rfl⟩ := exec_inviteClaim he hclaimed
  apply Rules.wpTx_of_rely
  intro s₁ to_next
  let c : Claiming R me token inviteeId ws s s₁ := {
    invite, acceptedAt := _, atInvite, atClaim, to_invite, invite_found, pending, distinct
    to_claim := R.rely_trans to_now (R.rely_trans to_accept to_claim)
    claim_found := ⟨row, hrow, hpending, htoken⟩
    to_next }
  apply Rules.wpTx_bind
  refine wpTx_befriend fun seen₁ s₂ b => ?_
  exact wpTx_awardReferral fun seen' s' a => h seen₁ seen' s₁ s₂ s' c b a

end InvitesService

end SideQuest
