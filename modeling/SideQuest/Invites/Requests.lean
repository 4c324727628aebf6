import SideQuest.Invites.Redemption
import SideQuest.Lib.Alone

-- The requests that write invites, by what each of them may commit.

namespace SideQuest

open ReadCommitted InvitesService AuthService

section

variable (R : Rules Stmt) (me : ℕ) (host : Host) (dto : RegisterDto) (ids : FreshIds)
  (token : String) (s s' : Store World Write)

-- A registration that has created its user since `s` and is at `s'`.
structure Registering where
  atCreate : Store World Write
  to_create : R.rely me [] s atCreate
  free : atCreate.db.users.find? ids.user = none
  email_free : atCreate.db.userByEmail (newUser host dto ids.user).email = none
  username_free : atCreate.db.userByUsername dto.username = none
  to_next : R.rely me (locksOf Stmt [.userCreate (newUser host dto ids.user)]) atCreate s'

-- The transaction of a registration with an invite, about to commit at `s'`.
structure Redeeming where
  seen : List (Seen Stmt)
  atCreated : Store World Write
  atClaimed : Store World Write
  atBefriended : Store World Write
  create : Registering R me host dto ids s atCreated
  claim : Claiming R me token ids.user [.userCreate (newUser host dto ids.user)] atCreated atClaimed
  befriend : Befriending R me claim.invite.inviterId ids.user ids.friendship
    [.userCreate (newUser host dto ids.user), claim.write] atClaimed atBefriended
  award : Awarding R me claim.invite.inviterId ids.user seen
    ([.userCreate (newUser host dto ids.user), claim.write] ++ befriend.writes) atBefriended s'

end

variable {R : Rules Stmt} {me : ℕ} {host : Host} {dto : RegisterDto} {ids : FreshIds}
  {token : String} {s s' : Store World Write}

def Redeeming.writes (t : Redeeming R me host dto ids token s s') : List Write :=
  [.userCreate (newUser host dto ids.user), t.claim.write] ++ t.befriend.writes ++ t.award.writes

theorem wpTx_registerTx
    {Q : List (Seen Stmt) → List Write → User × Option ReferralTxOutcome → Store World Write → Prop}
    (hplain : ∀ seen s', Registering R me host dto ids s s' → dto.token host = none →
      Q seen [.userCreate (newUser host dto ids.user)] (newUser host dto ids.user, none) s')
    (hreferral : ∀ token seen outcome s' (t : Redeeming R me host dto ids token s s'),
      dto.token host = some token → Q seen t.writes (newUser host dto ids.user, some outcome) s') :
    R.wpTx me Q (registerTx host dto ids) [] [] s := by
  unfold registerTx
  refine Rules.wpTx_call fun atCreate to_create _ _ _ he => ?_
  obtain ⟨free, email_free, username_free, rfl, rfl⟩ := exec_userCreate he
  apply Rules.wpTx_of_rely
  intro s₁ to_next
  have create : Registering R me host dto ids s s₁ :=
    { atCreate, to_create, free, email_free, username_free, to_next }
  cases htoken : dto.token host with
  | none =>
      intro s' hr
      exact hplain _ s' { create with to_next := R.rely_trans create.to_next hr } htoken
  | some token =>
      apply Rules.wpTx_bind
      refine wpTx_consumeReferralInviteTx fun seen₁ seen' s₂ s₃ s₄ claim befriend award s' hr => ?_
      exact hreferral token _ _ s' {
        seen := seen₁, atCreated := s₁, atClaimed := s₂, atBefriended := s₃, create, claim, befriend
        award := award.later hr } htoken

-- A redemption holds the locks that it has taken until it commits.
section Held

variable (t : Redeeming R me host dto ids token s s') {l : Lock}

theorem Redeeming.same_of_create (hl : l ∈ (Write.userCreate (newUser host dto ids.user)).locks) :
    l.same t.create.atCreate.db t.award.atInvitee.db ∧ l.same t.create.atCreate.db s'.db := by
  have hcreate : l ∈ locksOf Stmt [Write.userCreate (newUser host dto ids.user)] := by
    simpa using hl
  have hclaim := mem_locksOf_append hcreate [t.claim.write]
  have hbefriend := mem_locksOf_append hclaim t.befriend.writes
  have hcreated := R.rely_same t.create.to_next l hcreate
  have hbefriended := Lock.same_trans hcreated
    (Lock.same_trans (t.claim.same hcreate) (t.befriend.same hclaim))
  exact ⟨Lock.same_trans hbefriended (t.award.same_invitee hbefriend),
    Lock.same_trans hbefriended (t.award.same hbefriend)⟩

-- The invite is still pending and carries the token.
def Claimable (inviteId : Id) (token : String) (w : World) : Prop :=
  ∃ row, w.invites.find? inviteId = some row ∧ row.status = .PENDING ∧ row.token = token

theorem Claimable.of_same {inviteId : Id} {w w' : World} (h : Claimable inviteId token w)
    (hsame : (Lock.invite inviteId).same w w') : Claimable inviteId token w' := by
  obtain ⟨row, hrow, hpending⟩ := h
  exact ⟨row, hsame.trans hrow, hpending⟩

theorem Redeeming.claimable_claimed : Claimable t.claim.invite.id token t.atClaimed.db := by
  have hclaim : Claimable t.claim.invite.id token t.claim.atClaim.db := t.claim.claim_found
  exact hclaim.of_same (R.rely_same t.claim.to_next _ (by simp [Write.locks]))

-- Nobody else redeems or cancels it meanwhile.
theorem Redeeming.claimable : Claimable t.claim.invite.id token t.befriend.atFind.db ∧
    Claimable t.claim.invite.id token t.befriend.atCreate.db ∧
      Claimable t.claim.invite.id token t.award.atInviter.db ∧
        Claimable t.claim.invite.id token s'.db := by
  have hheld : Lock.invite t.claim.invite.id ∈
      locksOf Stmt [.userCreate (newUser host dto ids.user), t.claim.write] := by
    simp [Claiming.write, Write.locks]
  have hbefriend := mem_locksOf_append hheld t.befriend.writes
  have hclaimed := t.claimable_claimed
  have hbefriended := hclaimed.of_same (t.befriend.same hheld)
  exact ⟨hclaimed.of_same (t.befriend.same_find hheld),
    hclaimed.of_same (t.befriend.same_create hheld),
    hbefriended.of_same (t.award.same_inviter hbefriend),
    hbefriended.of_same (t.award.same hbefriend)⟩

theorem Redeeming.user_free (t : Redeeming R me host dto ids token s s') :
    s'.db.users.find? ids.user = none := by
  have hsame := (t.same_of_create (l := .user ids.user) (by simp [Write.locks, newUser])).2
  exact hsame.trans t.create.free

theorem Redeeming.users_before (db : World) :
    (view Stmt db ([.userCreate (newUser host dto ids.user), t.claim.write] ++
      t.befriend.writes)).users = db.users.insert (newUser host dto ids.user) := by
  rw [view_append, t.befriend.users_view]
  rfl

-- The invitee is paid on the row that the transaction has created.
theorem Redeeming.invitee_new : t.award.invitee = newUser host dto ids.user := by
  have hsame := (t.same_of_create (l := .user ids.user) (by simp [Write.locks, newUser])).1
  have hfree : t.award.atInvitee.db.users.find? ids.user = none := hsame.trans t.create.free
  have hread := t.award.invitee_found
  rw [t.users_before, Table.find?_insert hfree] at hread
  exact (Option.some.inj (hread.symm.trans (if_pos rfl)))

theorem Redeeming.find?_inviter (db : World) :
    (view Stmt db ([.userCreate (newUser host dto ids.user), t.claim.write] ++
      t.befriend.writes)).users.find? t.claim.invite.inviterId =
        db.users.find? t.claim.invite.inviterId := by
  rw [t.users_before]
  exact Table.find?_insert_ne _ (Ne.symm t.claim.distinct)

theorem Redeeming.users_view (db : World) : (view Stmt db t.writes).users =
    ((db.users.insert (newUser host dto ids.user)).modify t.claim.invite.inviterId
      (referralData t.award.inviter).apply (UserUpdate.id_apply _)).modify ids.user
        (referralData t.award.invitee).apply (UserUpdate.id_apply _) := by
  rw [writes, view_append, ← t.users_before]
  rfl

theorem Redeeming.invites_view (db : World) : (view Stmt db t.writes).invites =
    db.invites.modify t.claim.invite.id (InviteUpdate.apply
      { status := .ACCEPTED, inviteeId := some ids.user,
        acceptedAt := some t.claim.acceptedAt }) (InviteUpdate.id_apply _) := by
  rw [writes, view_append, view_append]
  show (view Stmt _ t.befriend.writes).invites = _
  rw [t.befriend.invites_view]
  rfl

theorem Redeeming.friendships_view (db : World) : (view Stmt db t.writes).friendships =
    (view Stmt db t.befriend.writes).friendships := by
  rw [writes, view_append, view_append]
  show (view Stmt _ t.befriend.writes).friendships = _
  rcases t.befriend.made with ⟨_, _, hw⟩ | ⟨_, _, _, hw⟩ <;> rw [hw] <;> rfl

-- Alone, a redemption commits on the data of each of its reads.
theorem Redeeming.alone {inv : World → Prop}
    (t : Redeeming (Rules.alone inv) me host dto ids token s s') :
    t.claim.atInvite = s' ∧ t.atClaimed = s' ∧ t.befriend.atFind = s' ∧ t.befriend.atCreate = s' ∧
      t.award.atInviter = s' := by
  have hinviter : t.award.atInviter = s' := (t.award.to_commit.2.trans
    (t.award.to_inviteeXp.2.trans (t.award.to_inviterXp.2.trans t.award.to_invitee.2))).symm
  have hbefriended : t.atBefriended = s' := t.award.to_inviter.2.symm.trans hinviter
  have hcreate : t.befriend.atCreate = s' := t.befriend.to_next.2.symm.trans hbefriended
  have hfind : t.befriend.atFind = s' := t.befriend.to_create.2.symm.trans hcreate
  have hclaimed : t.atClaimed = s' := t.befriend.to_find.2.symm.trans hfind
  have hinvite : t.claim.atInvite = s' :=
    (t.claim.to_next.2.trans t.claim.to_claim.2).symm.trans hclaimed
  exact ⟨hinvite, hclaimed, hfind, hcreate, hinviter⟩

end Held

-- Everything that a registration may commit is fine.
structure RegisterCommits (R : Rules Stmt) (me : ℕ) (host : Host) (dto : RegisterDto)
    (ids : FreshIds) : Prop where
  emits : Emits R me
  plain : ∀ s s', Registering R me host dto ids s s' → dto.token host = none →
    R.Commits me s' [.userCreate (newUser host dto ids.user)]
  referral : ∀ token s s' (t : Redeeming R me host dto ids token s s'),
    dto.token host = some token → R.Commits me s' t.writes
  session : ∀ s hash, R.inv s → (s.db.users.find? ids.user).isSome →
    R.Commits me s [.userUpdate ids.user { refreshTokenHash := some (some hash) }]

theorem wp_emitReferralCompleted {α : Type} {P : α → Store World Write → Prop}
    {f : Unit → Request α} {out : ReferralTxOutcome} (hemit : Emits R me)
    (h : ∀ s', R.wp me P (f ()) s') : R.wp me P (emitReferralCompleted out >>= f) s := by
  unfold emitReferralCompleted
  rw [Prog.bind_assoc]
  refine wp_emit hemit fun _ => ?_
  rw [Prog.bind_assoc]
  refine wp_when_emit hemit fun _ => ?_
  exact wp_when_emit hemit h

-- The session that is written is that of a token signed for the user.
theorem wp_issueTokens_signs {user : User} (hsession : ∀ s' now, R.rely me [] s s' →
    (s'.db.users.find? user.id).isSome → R.Commits me s' [.userUpdate user.id
      { refreshTokenHash := some (some (host.argon2Hash (host.signRefresh user.id now))) }]) :
    R.wp me (fun _ _ => True) (issueTokens host user) s := by
  unfold issueTokens
  refine Rules.wp_query (fun _ => rfl) fun s₁ h₁ => ?_
  refine Rules.wp_query (fun _ => rfl) fun s₂ h₂ => ?_
  refine Rules.wp_call fun s₃ h₃ _ _ _ he => ?_
  obtain ⟨row, hrow, _, rfl⟩ := exec_userUpdate he
  have hfound : (s₃.db.users.find? user.id).isSome := Option.isSome_of_eq_some hrow
  exact ⟨hsession s₃ _ (R.rely_trans h₁ (R.rely_trans h₂ h₃)) hfound, fun _ _ => trivial⟩

theorem wp_issueTokens {user : User} (hsession : ∀ s hash, R.inv s →
    (s.db.users.find? user.id).isSome →
      R.Commits me s [.userUpdate user.id { refreshTokenHash := some (some hash) }]) :
    R.wp me (fun _ _ => True) (issueTokens host user) s :=
  wp_issueTokens_signs fun s' _ hr hfound => hsession s' _ (R.rely_inv hr) hfound

theorem wp_register (h : RegisterCommits R me host dto ids) :
    R.wp me (fun _ _ => True) (register host dto ids) s := by
  unfold register
  refine Rules.wp_query (fun _ => rfl) fun s₁ h₁ => ?_
  refine Rules.wp_require fun _ => ?_
  refine Rules.wp_query (fun _ => rfl) fun s₂ h₂ => ?_
  refine Rules.wp_require fun _ => ?_
  refine Rules.wp_transaction (wpTx_registerTx ?_ ?_)
  · exact fun _ s' create hnone =>
      ⟨h.plain s₂ s' create hnone, wp_issueTokens h.session⟩
  · exact fun token _ outcome s' t htoken =>
      ⟨h.referral token s₂ s' t htoken,
        wp_emitReferralCompleted h.emits fun _ => wp_issueTokens h.session⟩

theorem wp_cancel {inviterId inviteId : Id}
    (h : ∀ s₁ s' inv, R.rely me [] s s₁ → s₁.db.invites.find? inviteId = some inv →
      inv.status = .PENDING → R.rely me [] s₁ s' →
        R.guard [] (.inviteCancel inviteId) s'.db = true →
          R.Commits me s' [.inviteUpdate inviteId { status := .CANCELLED }]) :
    R.wp me (fun _ _ => True) (cancel inviterId inviteId) s := by
  unfold cancel
  refine Rules.wp_query (fun _ => rfl) fun s₁ h₁ => ?_
  refine Rules.wp_expect fun inv hfound => ?_
  refine Rules.wp_require fun _ => ?_
  refine Rules.wp_require fun hpending => ?_
  refine fun s₂ h₂ hguard _ _ he => ?_
  obtain ⟨_, rfl⟩ := exec_inviteCancel he
  exact ⟨h s₁ s₂ inv h₁ hfound hpending h₂ hguard, fun _ _ => trivial⟩

-- The row that `createInvite` creates.
abbrev newInvite (host : Host) (inviterId : Id) (rawEmail : String) (id : Id) (token : String)
    (sentAt : Time) : Invite :=
  { id, token, inviterId, email := normalizeEmail host rawEmail, sentAt }

theorem wp_createInvite {inviterId id : Id} {rawEmail token : String}
    (hcancel : ∀ s' (pending : List Invite), R.inv s' →
      (∀ i ∈ pending, s'.db.invites.find? i.id = some i ∧ i.status = .PENDING) →
        R.Commits me s' (pending.map fun i => .inviteUpdate i.id { status := .CANCELLED }))
    (hcreate : ∀ s', R.inv s' →
      R.guard [] (.inviteCreate id token (normalizeEmail host rawEmail) inviterId) s'.db = true →
        s'.db.invites.find? id = none → s'.db.inviteByToken token = none →
          (s'.db.users.find? inviterId).isSome → R.Commits me s'
            [.inviteCreate (newInvite host inviterId rawEmail id token s'.db.clock)]) :
    R.wp me (fun _ _ => True) (createInvite host inviterId rawEmail id token) s := by
  unfold createInvite
  refine Rules.wp_require fun _ => ?_
  refine Rules.wp_query (fun _ => rfl) fun s₁ h₁ => ?_
  refine Rules.wp_expect fun inviter _ => ?_
  refine Rules.wp_require fun _ => ?_
  refine Rules.wp_query (fun _ => rfl) fun s₂ h₂ => ?_
  refine Rules.wp_require fun _ => ?_
  refine Rules.wp_query (fun _ => rfl) fun s₃ h₃ => ?_
  refine Rules.wp_query (fun _ => rfl) fun s₄ h₄ => ?_
  refine Rules.wp_require fun _ => ?_
  refine Rules.wp_call fun s₅ h₅ _ _ _ he => ?_
  obtain ⟨pending, rfl, hpending⟩ := exec_inviteCancelPending he
  refine ⟨hcancel s₅ pending (R.rely_inv h₅) hpending, ?_⟩
  refine fun s₆ h₆ hguard _ _ he => ?_
  obtain ⟨hfree, htoken, hinviter, rfl, rfl⟩ := exec_inviteCreate he
  exact ⟨hcreate s₆ (R.rely_inv h₆) hguard hfree htoken hinviter, fun _ _ => trivial⟩

-- A user who has sent one invite, and the registration that answers it.
def sender : User where
  id := 1
  email := "sender@example.com"
  username := "sender"
  passwordHash := "hash"

def invitation : Invite where
  id := 1
  token := "token"
  inviterId := 1
  email := "guest@example.com"
  sentAt := 0

def invited : World :=
  { World.empty with
    users := Table.empty.insert sender
    invites := Table.empty.insert invitation }

def guest (username : String) : RegisterDto where
  email := "guest@example.com"
  username := username
  password := "password"
  inviteToken := some "token"

end SideQuest
