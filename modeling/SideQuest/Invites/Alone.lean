import SideQuest.Invites.Requests

-- What a redemption does when nobody interferes.

namespace SideQuest

open ReadCommitted

namespace InvitesService

variable {host : Host} {w : World} {token email : String} {inviterId inviteeId newId : Id}
  {invite : Invite} {inviter invitee : User} {ws : List Write}

-- An invite that the invitee may redeem.
structure Redeemable (host : Host) (w : World) (token email : String) (inviteeId newId : Id)
    (invite : Invite) (inviter invitee : User) : Prop where
  found : w.inviteByToken token = some invite
  pending : invite.status = .PENDING
  unexpired : w.clock - invite.sentAt ≤ INVITE_EXPIRY_MS
  email_matches : normalizeEmail host invite.email = normalizeEmail host email
  distinct : invite.inviterId ≠ inviteeId
  befriends : (w.friendshipBetween invite.inviterId inviteeId).isSome ∨
    w.friendships.find? newId = none
  inviter_found : w.users.find? invite.inviterId = some inviter
  invitee_found : w.users.find? inviteeId = some invitee

def befriendWrites (w : World) (inviterId inviteeId newId : Id) : List Write :=
  match w.friendshipBetween inviterId inviteeId with
  | some _ => []
  | none => [.friendshipCreate (referralFriendship inviterId inviteeId newId w.clock)]

def befriendedId (w : World) (inviterId inviteeId newId : Id) : Id :=
  match w.friendshipBetween inviterId inviteeId with
  | some existing => existing.id
  | none => newId

def redemptionWrites (w : World) (inviteeId newId : Id) (invite : Invite)
    (inviter invitee : User) : List Write :=
  claimWrite invite.id inviteeId w.clock :: (befriendWrites w invite.inviterId inviteeId newId ++
    [referralWrite inviter invite.inviterId, referralWrite invitee inviteeId])

def redemptionOutcome (w : World) (inviteeId newId : Id) (invite : Invite)
    (inviter invitee : User) : ReferralTxOutcome :=
  ⟨befriendedId w invite.inviterId inviteeId newId, invite.inviterId, inviteeId,
    inviter.level, levelFromXp (inviter.xp + REFERRAL_XP),
    invitee.level, levelFromXp (invitee.xp + REFERRAL_XP)⟩

theorem friendshipOfPair_of_between (h : w.friendshipBetween inviterId inviteeId = none) :
    w.friendshipOfPair inviterId inviteeId = none := by
  rw [World.friendshipBetween, List.find?_eq_none] at h
  rw [World.friendshipOfPair, List.find?_eq_none]
  intro f hf hpair
  exact h f hf (decide_eq_true (Or.inl (of_decide_eq_true hpair)))

theorem users_befriendWrites (db : World) :
    (view Stmt db (befriendWrites w inviterId inviteeId newId)).users = db.users := by
  unfold befriendWrites
  split <;> rfl

theorem events_befriendWrites (db : World) :
    (view Stmt db (befriendWrites w inviterId inviteeId newId)).events = db.events := by
  unfold befriendWrites
  split <;> rfl

section Transaction

variable {db : World} (ws : List Write) (hdb : view Stmt w ws = db)

include hdb

theorem befriend_alone (hfree : (db.friendshipBetween inviterId inviteeId).isSome ∨
      db.friendships.find? newId = none) (hinviter : db.users.find? inviterId = some inviter)
    (hinvitee : db.users.find? inviteeId = some invitee) :
    (befriend inviterId inviteeId newId).alone ws w =
      .ok (befriendedId db inviterId inviteeId newId,
        ws ++ befriendWrites db inviterId inviteeId newId) := by
  subst hdb
  have hfind : Stmt.exec (.friendshipFindBetween inviterId inviteeId) (view Stmt w ws) =
      .ok ((view Stmt w ws).friendshipBetween inviterId inviteeId, []) := rfl
  unfold befriend befriendedId befriendWrites
  refine (Tx.alone_query hfind).trans ?_
  cases hbetween : (view Stmt w ws).friendshipBetween inviterId inviteeId with
  | some existing =>
      dsimp only
      rw [List.append_nil]
      rfl
  | none =>
      let row := referralFriendship inviterId inviteeId newId (view Stmt w ws).clock
      have hnew : (view Stmt w ws).friendships.find? newId = none := by simpa [hbetween] using hfree
      have hclock : Stmt.exec .now (view Stmt w ws) = .ok ((view Stmt w ws).clock, []) := rfl
      have hcreate : Stmt.exec (.friendshipCreate row) (view Stmt w ws) =
          .ok (row, [.friendshipCreate row]) := by
        simp [Stmt.exec, row, referralFriendship, hnew, friendshipOfPair_of_between hbetween,
          hinviter, hinvitee]
      exact (Tx.alone_query hclock).trans ((Tx.alone_call hcreate).trans rfl)

theorem awardReferral_alone (friendshipId : Id) (hinviter : db.users.find? inviterId = some inviter)
    (hinvitee : db.users.find? inviteeId = some invitee) :
    (awardReferral friendshipId inviterId inviteeId).alone ws w =
      .ok (⟨friendshipId, inviterId, inviteeId,
          inviter.level, levelFromXp (inviter.xp + REFERRAL_XP),
          invitee.level, levelFromXp (invitee.xp + REFERRAL_XP)⟩,
        ws ++ [referralWrite inviter inviterId, referralWrite invitee inviteeId]) := by
  subst hdb
  have hread {id : Id} {user : User} (h : (view Stmt w ws).users.find? id = some user) :
      Stmt.exec (.userFindUnique id) (view Stmt w ws) = .ok (some user, []) := by
    rw [Stmt.exec, h, ask]
  have hpay : Stmt.exec (.userUpdate inviterId (referralData inviter)) (view Stmt w ws) =
      .ok ((referralData inviter).apply inviter, [referralWrite inviter inviterId]) := by
    simp only [Stmt.exec, hinviter]
  obtain ⟨row, hrow⟩ : ∃ row, (view Stmt w (ws ++ [referralWrite inviter inviterId])).users.find?
      inviteeId = some row := by
    apply Option.isSome_iff_exists.mp
    rw [view_append, view_cons, view_nil, apply_eq, World.find?_userUpdate, hinvitee]
    split <;> rfl
  have hpay' : Stmt.exec (.userUpdate inviteeId (referralData invitee))
      (view Stmt w (ws ++ [referralWrite inviter inviterId])) =
        .ok ((referralData invitee).apply row, [referralWrite invitee inviteeId]) := by
    simp only [Stmt.exec, hrow]
  unfold awardReferral
  refine (Tx.alone_query (hread hinviter)).trans ?_
  refine (Tx.alone_query (hread hinvitee)).trans ?_
  refine (Tx.alone_expect rfl).trans ((Tx.alone_expect rfl).trans ?_)
  refine (Tx.alone_call hpay).trans ((Tx.alone_call hpay').trans ?_)
  rw [List.append_assoc]
  rfl

theorem consumeReferralInviteTx_alone
    (h : Redeemable host db token email inviteeId newId invite inviter invitee) :
    (consumeReferralInviteTx host token inviteeId email newId).alone ws w =
      .ok (redemptionOutcome db inviteeId newId invite inviter invitee,
        ws ++ redemptionWrites db inviteeId newId invite inviter invitee) := by
  subst hdb
  let claim := claimWrite invite.id inviteeId (view Stmt w ws).clock
  have hfind : Stmt.exec (.inviteFindByToken token) (view Stmt w ws) = .ok (some invite, []) := by
    rw [Stmt.exec, h.found, ask]
  have hclock : Stmt.exec .now (view Stmt w ws) = .ok ((view Stmt w ws).clock, []) := rfl
  have hrow : (view Stmt w ws).invites.find? invite.id = some invite :=
    Table.find?_of_mem (List.mem_of_find?_eq_some h.found)
  have htoken := List.find?_some h.found
  have hstill : ((view Stmt w ws).invites.find? invite.id).filter
      (fun i => i.status = .PENDING ∧ i.token = token) = some invite := by
    rw [hrow]
    exact Option.filter_eq_some_iff.mpr
      ⟨rfl, decide_eq_true ⟨h.pending, of_decide_eq_true htoken⟩⟩
  have hclaim : Stmt.exec (.inviteClaim invite.id token inviteeId (view Stmt w ws).clock)
      (view Stmt w ws) = .ok (1, [claim]) := by
    simp only [Stmt.exec, hstill]
    rfl
  have hview : view Stmt w (ws ++ [claim]) = (view Stmt w ws).apply claim := by
    rw [view_append]
    rfl
  let writes := befriendWrites (view Stmt w ws) invite.inviterId inviteeId newId
  have hthen : view Stmt w (ws ++ [claim] ++ writes) =
      view Stmt ((view Stmt w ws).apply claim) writes := by
    rw [view_append, hview]
  have husers : (view Stmt ((view Stmt w ws).apply claim) writes).users = (view Stmt w ws).users :=
    users_befriendWrites _
  unfold consumeReferralInviteTx
  refine (Tx.alone_query hfind).trans ?_
  refine (Tx.alone_expect rfl).trans ((Tx.alone_require h.pending).trans ?_)
  refine (Tx.alone_query hclock).trans ((Tx.alone_require h.unexpired).trans ?_)
  refine (Tx.alone_require h.email_matches).trans ((Tx.alone_require h.distinct).trans ?_)
  refine (Tx.alone_query hclock).trans ?_
  refine (Tx.alone_call hclaim).trans ((Tx.alone_require rfl).trans ?_)
  refine (Tx.alone_bind
    (befriend_alone _ hview h.befriends h.inviter_found h.invitee_found)).trans ?_
  refine (awardReferral_alone _ hthen _ (husers ▸ h.inviter_found)
    (husers ▸ h.invitee_found)).trans ?_
  simp only [redemptionWrites, redemptionOutcome, List.append_assoc, List.singleton_append]
  rfl

end Transaction

-- A redemption that goes through was possible.
section Found

theorem befriend_found : Tx.Returns (fun _ ws' => (view Stmt w ws').users = (view Stmt w ws).users ∧
      (((view Stmt w ws).friendshipBetween inviterId inviteeId).isSome ∨
        (view Stmt w ws).friendships.find? newId = none))
    (befriend inviterId inviteeId newId) ws w := by
  unfold befriend
  refine Tx.returns_query (fun _ => rfl) ?_
  split
  · rename_i existing hfound
    intro _ _ hrun
    cases hrun
    exact ⟨rfl, Or.inl (Option.isSome_of_eq_some hfound)⟩
  · refine Tx.returns_query (fun _ => rfl) (Tx.returns_call fun f ws' he => ?_)
    obtain ⟨hfree, _, _, _, _, rfl⟩ := exec_friendshipCreate he
    intro _ _ hrun
    cases hrun
    rw [view_append]
    exact ⟨rfl, Or.inr hfree⟩

theorem consumeReferralInviteTx_found {db : World} (hdb : view Stmt w ws = db) :
    Tx.Returns (fun _ _ => ∃ invite inviter invitee,
        Redeemable host db token email inviteeId newId invite inviter invitee)
      (consumeReferralInviteTx host token inviteeId email newId) ws w := by
  subst hdb
  unfold consumeReferralInviteTx
  refine Tx.returns_query (fun _ => rfl) (Tx.returns_expect fun invite found => ?_)
  refine Tx.returns_require fun pending => ?_
  refine Tx.returns_query (fun _ => rfl) (Tx.returns_require fun unexpired => ?_)
  refine Tx.returns_require fun email_matches => Tx.returns_require fun distinct => ?_
  refine Tx.returns_query (fun _ => rfl) (Tx.returns_call fun n ws' he => ?_)
  refine Tx.returns_require fun hclaimed => ?_
  obtain ⟨_, _, _, _, rfl⟩ := exec_inviteClaim he hclaimed
  refine Tx.returns_bind befriend_found fun _ ws₂ hbefriended => ?_
  have husers : (view Stmt w ws₂).users = (view Stmt w ws).users := by
    rw [hbefriended.1, view_append]
    rfl
  have befriends := hbefriended.2
  rw [view_append] at befriends
  unfold awardReferral
  refine Tx.returns_query (fun _ => rfl) (Tx.returns_query (fun _ => rfl) ?_)
  refine Tx.returns_expect fun inviter hinviter => Tx.returns_expect fun invitee hinvitee => ?_
  intro _ _ _
  exact ⟨invite, inviter, invitee, found, pending, unexpired, email_matches, distinct, befriends,
    husers ▸ hinviter, husers ▸ hinvitee⟩

end Found

-- The events of a redemption.
def referralEvents (out : ReferralTxOutcome) : List AppEvent :=
  .friendRequestAccepted out.inviterId out.inviteeId out.friendshipId ::
    (levelUps out.inviterId out.inviterPrevLevel out.inviterNewLevel ++
      levelUps out.inviteeId out.inviteePrevLevel out.inviteeNewLevel)

theorem emitReferralCompleted_alone (out : ReferralTxOutcome) (w : World) :
    (emitReferralCompleted out).alone w = (.ok (), view Stmt w ((referralEvents out).map .emit)) := by
  unfold emitReferralCompleted
  refine (Prog.alone_bind alone_emit).trans ?_
  refine (Prog.alone_bind alone_when_levelUp).trans ?_
  rw [alone_when_levelUp, ← view_append, ← view_append, ← List.map_append, ← List.map_append]
  rfl

end InvitesService

namespace AuthService

open InvitesService

variable {host : Host} {dto : RegisterDto} {ids : FreshIds} {w : World} {token : String}
  {invite : Invite} {inviter : User}

-- What a registration needs to be free.
structure Free (host : Host) (dto : RegisterDto) (ids : FreshIds) (w : World) : Prop where
  id : w.users.find? ids.user = none
  email : w.userByEmail (newUser host dto ids.user).email = none
  username : w.userByUsername dto.username = none

def created (host : Host) (dto : RegisterDto) (ids : FreshIds) (w : World) : World :=
  w.apply (.userCreate (newUser host dto ids.user))

-- The new user may redeem the invite.
abbrev Redeems (host : Host) (dto : RegisterDto) (ids : FreshIds) (w : World) (token : String)
    (invite : Invite) (inviter : User) : Prop :=
  Redeemable host (created host dto ids w) token (newUser host dto ids.user).email ids.user
    ids.friendship invite inviter (newUser host dto ids.user)

def referralOutcome (host : Host) (dto : RegisterDto) (ids : FreshIds) (w : World)
    (invite : Invite) (inviter : User) : ReferralTxOutcome :=
  redemptionOutcome (created host dto ids w) ids.user ids.friendship invite inviter
    (newUser host dto ids.user)

def referralWrites (host : Host) (dto : RegisterDto) (ids : FreshIds) (w : World)
    (invite : Invite) (inviter : User) : List Write :=
  redemptionWrites (created host dto ids w) ids.user ids.friendship invite inviter
    (newUser host dto ids.user)

theorem find?_created (hid : w.users.find? ids.user = none) (id : Id) :
    (created host dto ids w).users.find? id =
      if ids.user = id then some (newUser host dto ids.user) else w.users.find? id :=
  Table.find?_insert hid id

-- With new CUIDs, nobody redeems his own invite, and no friendship is in the way.
theorem redeems_of_found (hid : w.users.find? ids.user = none)
    (hfriendship : w.friendships.find? ids.friendship = none)
    (found : w.inviteByToken token = some invite) (pending : invite.status = .PENDING)
    (unexpired : w.clock - invite.sentAt ≤ INVITE_EXPIRY_MS)
    (email_matches : normalizeEmail host invite.email =
      normalizeEmail host (newUser host dto ids.user).email)
    (hinviter : w.users.find? invite.inviterId = some inviter) :
    Redeems host dto ids w token invite inviter := by
  have hdistinct : invite.inviterId ≠ ids.user := by
    intro he
    rw [he, hid] at hinviter
    cases hinviter
  refine ⟨found, pending, unexpired, email_matches, hdistinct, Or.inr hfriendship, ?_, ?_⟩
  · rw [find?_created hid, if_neg hdistinct.symm]
    exact hinviter
  · rw [find?_created hid, if_pos rfl]

theorem exec_create (h : Free host dto ids w) :
    Stmt.exec (.userCreate (newUser host dto ids.user)) (view Stmt w []) =
      .ok (newUser host dto ids.user, [.userCreate (newUser host dto ids.user)]) := by
  have husername : w.userByUsername (newUser host dto ids.user).username = none := h.username
  have hid : w.users.find? (newUser host dto ids.user).id = none := h.id
  simp [Stmt.exec, h.email, husername, hid]

theorem registerTx_alone_plain (h : Free host dto ids w) (htoken : dto.token host = none) :
    (registerTx host dto ids).alone [] w =
      .ok ((newUser host dto ids.user, none), [.userCreate (newUser host dto ids.user)]) := by
  unfold registerTx
  refine (Tx.alone_call (exec_create h)).trans ?_
  rw [htoken]
  rfl

theorem registerTx_alone_referral (h : Free host dto ids w) (htoken : dto.token host = some token)
    (hredeems : Redeems host dto ids w token invite inviter) :
    (registerTx host dto ids).alone [] w =
      .ok ((newUser host dto ids.user, some (referralOutcome host dto ids w invite inviter)),
        .userCreate (newUser host dto ids.user) :: referralWrites host dto ids w invite inviter) := by
  unfold registerTx
  refine (Tx.alone_call (exec_create h)).trans ?_
  rw [htoken]
  exact Tx.alone_bind (consumeReferralInviteTx_alone _ rfl hredeems)

theorem registerTx_found : Tx.Returns (fun _ _ => Free host dto ids w ∧ ∀ token,
      dto.token host = some token → ∃ invite inviter, Redeems host dto ids w token invite inviter)
    (registerTx host dto ids) [] w := by
  unfold registerTx
  refine Tx.returns_call fun u ws he => ?_
  obtain ⟨id, email, username, rfl, rfl⟩ := exec_userCreate he
  have hfree : Free host dto ids w := ⟨id, email, username⟩
  cases htoken : dto.token host with
  | none =>
      intro _ _ _
      exact ⟨hfree, fun token hsome => by cases hsome⟩
  | some token =>
      refine Tx.returns_bind (consumeReferralInviteTx_found rfl) fun _ _ hfound => ?_
      obtain ⟨invite, inviter, invitee, hredeemable⟩ := hfound
      have hinvitee := hredeemable.invitee_found
      rw [view_append, view_nil, view_cons, view_nil, apply_eq, World.apply,
        Table.find?_insert hfree.id, if_pos rfl] at hinvitee
      cases hinvitee
      intro _ _ _
      refine ⟨hfree, fun token' htoken' => ⟨invite, inviter, ?_⟩⟩
      cases htoken'
      exact hredeemable

section Register

variable (h : Free host dto ids w)

include h

theorem register_alone {referral : Option ReferralTxOutcome} {ws : List Write}
    (htx : (registerTx host dto ids).alone [] w = .ok ((newUser host dto ids.user, referral), ws)) :
    (register host dto ids).alone w = (issueTokens host (newUser host dto ids.user)).alone
      (view Stmt w (ws ++ (referral.elim [] referralEvents).map .emit)) := by
  have hemail : Stmt.exec (.userFindByEmail (newUser host dto ids.user).email) w =
      .ok (none, []) := by rw [Stmt.exec, h.email, ask]
  have husername : Stmt.exec (.userFindByUsername dto.username) w = .ok (none, []) := by
    rw [Stmt.exec, h.username, ask]
  unfold register
  refine (Prog.alone_query hemail).trans ((Prog.alone_require rfl).trans ?_)
  refine (Prog.alone_query husername).trans ((Prog.alone_require rfl).trans ?_)
  refine (Prog.alone_transaction htx).trans ?_
  rw [view_append]
  cases referral with
  | none => rfl
  | some out => exact Prog.alone_bind (emitReferralCompleted_alone out _)

theorem register_alone_plain (htoken : dto.token host = none) : (register host dto ids).alone w =
    (issueTokens host (newUser host dto ids.user)).alone (created host dto ids w) := by
  have hregister := register_alone h (registerTx_alone_plain h htoken)
  exact hregister

theorem register_alone_referral (htoken : dto.token host = some token)
    (hredeems : Redeems host dto ids w token invite inviter) : (register host dto ids).alone w =
      (issueTokens host (newUser host dto ids.user)).alone (view Stmt (created host dto ids w)
        (referralWrites host dto ids w invite inviter ++
          (referralEvents (referralOutcome host dto ids w invite inviter)).map .emit)) := by
  have hregister := register_alone h (registerTx_alone_referral h htoken hredeems)
  exact hregister

end Register

-- `register` fails without a trace, or it had what it needs.
theorem register_needs (host : Host) (dto : RegisterDto) (ids : FreshIds) (w : World) :
    (((register host dto ids).alone w).1.isOk = false ∧ ((register host dto ids).alone w).2 = w) ∨
      Free host dto ids w ∧ ∀ token, dto.token host = some token →
        ∃ invite inviter, Redeems host dto ids w token invite inviter := by
  show Prog.Ends (fun answer w' => (answer.isOk = false ∧ w' = w) ∨ Free host dto ids w ∧
    ∀ token, dto.token host = some token →
      ∃ invite inviter, Redeems host dto ids w token invite inviter) _ w
  unfold register
  refine Prog.ends_query (fun _ => rfl) (Prog.ends_require (Or.inl ⟨rfl, rfl⟩) fun _ => ?_)
  refine Prog.ends_query (fun _ => rfl) (Prog.ends_require (Or.inl ⟨rfl, rfl⟩) fun _ => ?_)
  refine Prog.ends_transaction (fun _ => Or.inl ⟨rfl, rfl⟩) fun a ws hrun => Or.inr ?_
  exact registerTx_found a ws hrun

end AuthService

end SideQuest
