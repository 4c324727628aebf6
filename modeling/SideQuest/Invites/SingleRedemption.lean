import SideQuest.Invites.Requests

-- An invite is redeemed at most once, however many registrations carry its token.

namespace SideQuest

open ReadCommitted InvitesService AuthService

-- A user without the session, which every sign-in replaces.
def User.account (u : User) : User := { u with refreshTokenHash := none }

def World.accounts (w : World) : List User := w.users.rows.map User.account

-- The commit of a registration.
def registers (entry : ℕ × List Write) : Bool :=
  entry.2.any fun
    | .userCreate _ => true
    | _ => false

-- No registration has left anything behind.
structure Untouched (w : World) (s : Store World Write) : Prop where
  accounts : s.db.accounts = w.accounts
  invites : s.db.invites = w.invites
  friendships : s.db.friendships = w.friendships
  commits : s.wal.filter registers = []

-- One registration, of `invitee`, has redeemed the invite, and no other has left
-- anything behind.
structure Redeemed (w : World) (invite : Invite) (entry : ℕ × List Write) (invitee : User)
    (s : Store World Write) : Prop where
  commits : s.wal.filter registers = [entry]
  created : .userCreate invitee ∈ entry.2
  fresh : w.users.find? invitee.id = none
  unpaid : invitee.xp = 0
  -- both sides get the referral bonus, everybody else stays the same
  accounts : s.db.accounts = (w.accounts.map fun u =>
    if u.id = invite.inviterId then (referralData u).apply u else u) ++
      [(referralData invitee).apply invitee]
  invites : ∃ acceptedAt, s.db.invites = w.invites.modify invite.id
    (InviteUpdate.apply ⟨.ACCEPTED, some invitee.id, some acceptedAt⟩) (InviteUpdate.id_apply _)
  friendships : ∃ f, s.db.friendships.rows = w.friendships.rows ++ [f] ∧
    f.requesterId = invite.inviterId ∧ f.addresseeId = invitee.id ∧ f.status = .ACCEPTED

def SingleRedemption (w : World) (token : String) (s : Store World Write) : Prop :=
  Untouched w s ∨ ∃ invite entry invitee, w.inviteByToken token = some invite ∧
    Redeemed w invite entry invitee s

theorem SingleRedemption.countP_le_one {w : World} {token : String} {s : Store World Write}
    (h : SingleRedemption w token s) : s.wal.countP registers ≤ 1 := by
  rw [List.countP_eq_length_filter]
  rcases h with h | ⟨_, _, _, _, h⟩
  · rw [h.commits]
    exact Nat.zero_le 1
  · rw [h.commits]
    exact Nat.le_refl 1

theorem find?_accounts (w : World) (id : Id) :
    (w.accounts.find? fun u => u.id = id) = (w.users.find? id).map User.account := by
  rw [World.accounts, List.find?_map]
  rfl

-- Equal accounts have equal ids and XP.
theorem find?_of_accounts {w w' : World} (h : w'.accounts = w.accounts) (id : Id) :
    (w'.users.find? id).map User.account = (w.users.find? id).map User.account := by
  rw [← find?_accounts, ← find?_accounts, h]

section

variable {w : World} {token : String} {s : Store World Write}

-- A commit of other data and of sessions changes nothing here.
theorem SingleRedemption.commit (h : SingleRedemption w token s) {me : ℕ} {wr : Write}
    (hcommit : registers (me, [wr]) = false)
    (haccounts : (s.db.apply wr).accounts = s.db.accounts)
    (hinvites : (s.db.apply wr).invites = s.db.invites)
    (hfriendships : (s.db.apply wr).friendships = s.db.friendships) :
    SingleRedemption w token (s.commit Stmt me [wr]) := by
  have hfilter : (s.commit Stmt me [wr]).wal.filter registers = s.wal.filter registers := by
    simp [hcommit]
  rcases h with h | ⟨invite, entry, invitee, hinvite, h⟩
  · exact Or.inl {
      accounts := haccounts.trans h.accounts
      invites := hinvites.trans h.invites
      friendships := hfriendships.trans h.friendships
      commits := hfilter.trans h.commits }
  · obtain ⟨acceptedAt, haccepted⟩ := h.invites
    obtain ⟨f, hrows, hf⟩ := h.friendships
    exact Or.inr ⟨invite, entry, invitee, hinvite, { h with
      commits := hfilter.trans h.commits
      accounts := haccounts.trans h.accounts
      invites := ⟨acceptedAt, hinvites.trans haccepted⟩
      friendships := ⟨f, (congrArg Table.rows hfriendships).trans hrows, hf⟩ }⟩

theorem accounts_session (db : World) (id : Id) (hash : String) :
    (db.apply (.userUpdate id { refreshTokenHash := some (some hash) })).accounts =
      db.accounts := by
  simp only [World.accounts, World.apply, Table.rows_modify, List.map_map]
  apply List.map_congr_left
  intro u _
  by_cases hid : u.id = id
  · simp [hid, UserUpdate.apply, User.account, FieldUpdate.apply]
  · simp [hid]

-- The invite of a redemption is accepted.
theorem Redeemed.status {invite : Invite} {entry : ℕ × List Write} {invitee : User}
    (h : Redeemed w invite entry invitee s) {row : Invite}
    (hrow : s.db.invites.find? invite.id = some row) : row.status = .ACCEPTED := by
  obtain ⟨acceptedAt, hinvites⟩ := h.invites
  rw [hinvites, Table.find?_modify_self] at hrow
  obtain ⟨_, _, rfl⟩ := Option.map_eq_some_iff.mp hrow
  rfl

-- Who finds the token's invite pending finds nothing redeemed.
theorem SingleRedemption.untouched_of_pending (h : SingleRedemption w token s) {invite : Invite}
    (hfound : s.db.inviteByToken token = some invite) (hpending : invite.status = .PENDING) :
    Untouched w s := by
  rcases h with h | ⟨invite₀, _, _, hinvite, h⟩
  · exact h
  · obtain ⟨acceptedAt, hinvites⟩ := h.invites
    have hid : (s.db.inviteByToken token).map Invite.id = (w.inviteByToken token).map Invite.id := by
      rw [World.inviteByToken, hinvites]
      exact Table.map_key_find?_modify _ _ _ _ _ fun _ => rfl
    rw [hfound, hinvite, Option.map_some, Option.map_some, Option.some.injEq] at hid
    have hrow : s.db.invites.find? invite₀.id = some invite := by
      rw [← hid]
      exact Table.find?_of_mem (List.mem_of_find?_eq_some hfound)
    have haccepted := h.status hrow
    rw [hpending] at haccepted
    cases haccepted

theorem SingleRedemption.untouched_of_claimable (h : SingleRedemption w token s) {invite : Invite}
    (hinvite : w.inviteByToken token = some invite) (hc : Claimable invite.id token s.db) :
    Untouched w s := by
  rcases h with h | ⟨invite₀, _, _, hinvite₀, h⟩
  · exact h
  · obtain rfl : invite = invite₀ := Option.some.inj (hinvite.symm.trans hinvite₀)
    obtain ⟨row, hrow, hpending, _⟩ := hc
    have haccepted := h.status hrow
    rw [hpending] at haccepted
    cases haccepted

end

section Redeeming

variable {w : World} {token : String} {me : ℕ} {host : Host} {dto : RegisterDto} {ids : FreshIds}
  {s s' : Store World Write} {R : Rules Stmt}

-- The stores at which a redemption reads, once it has claimed, and commits.
structure Undisturbed (w : World) (t : Redeeming R me host dto ids token s s') : Prop where
  invite : w.inviteByToken token = some t.claim.invite
  atFind : Untouched w t.befriend.atFind
  atCreate : Untouched w t.befriend.atCreate
  atInviter : Untouched w t.award.atInviter
  atCommit : Untouched w s'

theorem undisturbed_of_redeeming (hR : ∀ s, R.inv s → SingleRedemption w token s)
    (t : Redeeming R me host dto ids token s s') : Undisturbed w t := by
  have hread : Untouched w t.claim.atInvite :=
    (hR _ (R.rely_inv t.claim.to_invite)).untouched_of_pending t.claim.invite_found t.claim.pending
  have hinvite : w.inviteByToken token = some t.claim.invite := by
    rw [World.inviteByToken, ← hread.invites]
    exact t.claim.invite_found
  obtain ⟨hfind, hcreate, hinviter, hcommit⟩ := t.claimable
  exact {
    invite := hinvite
    atFind := (hR _ (R.rely_inv t.befriend.to_find)).untouched_of_claimable hinvite hfind
    atCreate := (hR _ (R.rely_inv t.befriend.to_create)).untouched_of_claimable hinvite hcreate
    atInviter := (hR _ (R.rely_inv t.award.to_inviter)).untouched_of_claimable hinvite hinviter
    atCommit := (hR _ (R.rely_inv t.award.to_commit)).untouched_of_claimable hinvite hcommit }

-- The new user has no friendship yet, so one is created.
theorem friendships_view (hw : w.ForeignKeys) (t : Redeeming R me host dto ids token s s')
    (h : Undisturbed w t) (hfresh : w.users.find? ids.user = none) :
    ∃ f, (view Stmt s'.db t.writes).friendships.rows = w.friendships.rows ++ [f] ∧
      f.requesterId = t.claim.invite.inviterId ∧ f.addresseeId = ids.user ∧ f.status = .ACCEPTED := by
  rcases t.befriend.made with ⟨f, hfound, _⟩ | ⟨_, hfree, now, hwrites⟩
  · obtain ⟨hmem, hpair⟩ := World.friendshipBetween_eq_some hfound
    replace hmem : f ∈ w.friendships.rows := by
      rw [← h.atFind.friendships]
      exact hmem
    have hknown : (w.users.find? ids.user).isSome := by
      rcases hpair with ⟨_, ha⟩ | ⟨hr, _⟩
      · exact ha ▸ hw.addressees f hmem
      · exact hr ▸ hw.requesters f hmem
    rw [hfresh] at hknown
    cases hknown
  · have hnew : s'.db.friendships.find? ids.friendship = none := by
      rw [h.atCommit.friendships, ← h.atCreate.friendships]
      exact hfree
    refine ⟨referralFriendship t.claim.invite.inviterId ids.user ids.friendship now, ?_, rfl,
      rfl, rfl⟩
    have hinsert : (view Stmt s'.db t.writes).friendships = s'.db.friendships.insert
        (referralFriendship t.claim.invite.inviterId ids.user ids.friendship now) := by
      rw [t.friendships_view, hwrites]
      rfl
    rw [hinsert, Table.rows_insert hnew, h.atCommit.friendships]

-- The inviter's bonus is computed from the XP that the inviter still has.
theorem referralData_inviter (t : Redeeming R me host dto ids token s s') (h : Undisturbed w t)
    {u : User} (hu : s'.db.users.find? t.claim.invite.inviterId = some u) :
    referralData t.award.inviter = referralData u := by
  have hread := t.award.inviter_found
  rw [t.find?_inviter] at hread
  have haccount : (s'.db.users.find? t.claim.invite.inviterId).map User.account =
      (t.award.atInviter.db.users.find? t.claim.invite.inviterId).map User.account := by
    rw [find?_of_accounts h.atCommit.accounts, find?_of_accounts h.atInviter.accounts]
  rw [hu, hread, Option.map_some, Option.map_some, Option.some.injEq] at haccount
  have hxp : u.xp = t.award.inviter.xp := show u.account.xp = _ by rw [haccount]; rfl
  simp only [referralData, hxp]

theorem accounts_view (t : Redeeming R me host dto ids token s s') (h : Undisturbed w t) :
    (view Stmt s'.db t.writes).accounts = (w.accounts.map fun u =>
      if u.id = t.claim.invite.inviterId then (referralData u).apply u else u) ++
        [(referralData (newUser host dto ids.user)).apply (newUser host dto ids.user)] := by
  have hrows : (s'.db.users.insert (newUser host dto ids.user)).rows =
      s'.db.users.rows ++ [newUser host dto ids.user] := Table.rows_insert t.user_free
  rw [World.accounts, t.users_view, Table.rows_modify, Table.rows_modify, hrows,
    ← h.atCommit.accounts, World.accounts]
  simp only [List.map_append, List.map_map, List.map_singleton]
  congr 1
  · apply List.map_congr_left
    intro u hu
    have hne : u.id ≠ ids.user := by
      intro he
      have hfound := Table.find?_of_mem hu
      rw [he, t.user_free] at hfound
      cases hfound
    by_cases hinviter : u.id = t.claim.invite.inviterId
    · have hdata := referralData_inviter t h (hinviter ▸ Table.find?_of_mem hu)
      have haccount : u.account.id = t.claim.invite.inviterId := hinviter
      simp only [Function.comp_apply, if_pos hinviter, if_pos haccount, hdata,
        UserUpdate.id_apply, if_neg hne]
      rfl
    · have haccount : u.account.id ≠ t.claim.invite.inviterId := hinviter
      simp only [Function.comp_apply, if_neg hinviter, if_neg haccount, if_neg hne]
  · have hne : (newUser host dto ids.user).id ≠ t.claim.invite.inviterId := Ne.symm t.claim.distinct
    have hid : (newUser host dto ids.user).id = ids.user := rfl
    simp only [if_neg hne, if_pos hid, t.invitee_new]
    rfl

theorem redeemed_of_redeeming (hw : w.ForeignKeys) (t : Redeeming R me host dto ids token s s')
    (h : Undisturbed w t) : Redeemed w t.claim.invite (me, t.writes) (newUser host dto ids.user)
      (s'.commit Stmt me t.writes) := by
  have hfresh : w.users.find? ids.user = none := by
    have hsame := find?_of_accounts h.atCommit.accounts ids.user
    rw [t.user_free, Option.map_none] at hsame
    exact Option.map_eq_none_iff.mp hsame.symm
  exact {
    commits := by
      have hone : (s'.commit Stmt me t.writes).wal = s'.wal ++ [(me, t.writes)] := rfl
      rw [hone, List.filter_append, h.atCommit.commits]
      rfl
    created := List.mem_cons_self
    fresh := hfresh
    unpaid := rfl
    accounts := accounts_view t h
    invites := ⟨t.claim.acceptedAt, by
      rw [Store.commit_db, t.invites_view, h.atCommit.invites]
      rfl⟩
    friendships := by
      rw [Store.commit_db]
      exact friendships_view hw t h hfresh }

end Redeeming

abbrev redemptionContract (w : World) (token : String) : Contract Stmt World Write :=
  .ofInv (SingleRedemption w token) Guard.none

theorem registerCommits_redemption {w : World} (hw : w.ForeignKeys) (token : String) (me : ℕ)
    (host : Host) {dto : RegisterDto} (hdto : dto.token host = some token) (ids : FreshIds) :
    RegisterCommits (redemptionContract w token).rules me host dto ids where
  emits _ _ h := ⟨h.commit rfl rfl rfl rfl, trivial⟩
  plain _ _ _ hnone := by
    rw [hdto] at hnone
    cases hnone
  referral token' s s' t htoken := by
    obtain rfl : token = token' := Option.some.inj (hdto.symm.trans htoken)
    have hquiet := undisturbed_of_redeeming (w := w) (fun _ h => h) t
    exact ⟨Or.inr ⟨_, _, _, hquiet.invite, redeemed_of_redeeming hw t hquiet⟩, trivial⟩
  session s hash h _ := ⟨h.commit rfl (accounts_session s.db _ _) rfl rfl, trivial⟩

-- The registrations that carry a token.
def RegistersWith (host : Host) (token : String) (p : Request Unit) : Prop :=
  ∃ dto ids, dto.token host = some token ∧ p = (register host dto ids).void

-- Of all the registrations with a token at most one commits, and what is there
-- afterwards is the work of that one.
theorem singleRedemption_of_reaches (host : Host) (token : String) {w : World}
    (hw : w.ForeignKeys) {s : System Stmt World Write ApiError}
    (h : System.Reaches (RegistersWith host token) Guard.none (System.init w) s) :
    s.store.wal.countP registers ≤ 1 ∧ SingleRedemption w token s.store := by
  have hinit : SingleRedemption w token ⟨w, []⟩ := Or.inl ⟨rfl, rfl, rfl, rfl⟩
  have hsafe := System.Reaches.safe (C := redemptionContract w token) (fun p hp me st _ => ?_)
    (fun a st hst => ⟨?_, trivial⟩) (System.init_safe hinit) h
  · have hsingle : SingleRedemption w token s.store := hsafe.1.inv
    exact ⟨hsingle.countP_le_one, hsingle⟩
  · obtain ⟨dto, ids, hdto, rfl⟩ := hp
    exact Rules.wp_void (wp_register (registerCommits_redemption hw token me host hdto ids))
  · rcases hst with hst | ⟨invite, entry, invitee, hinvite, hst⟩
    · exact Or.inl { hst with }
    · exact Or.inr ⟨invite, entry, invitee, hinvite, { hst with }⟩

theorem foreignKeys_invited : invited.ForeignKeys where
  completions _ hc := by cases hc
  userAchievements _ ha := by cases ha
  inviters i hi := by
    obtain rfl : i = invitation := by simpa [invited, Table.insert, Table.empty] using hi
    decide
  invitees i hi id hid := by
    obtain rfl : i = invitation := by simpa [invited, Table.insert, Table.empty] using hi
    cases hid
  requesters _ hf := by cases hf
  addressees _ hf := by cases hf

-- Both registrations have found the address free before one of them commits.
theorem singleRedemption_two_registrations : ∃ s : System Stmt World Write ApiError,
    (s.store.wal.countP registers ≤ 1 ∧ SingleRedemption invited "token" s.store) ∧
      s.store.wal.countP registers = 1 := by
  obtain ⟨s, hs, hobs⟩ := System.exists_reaches_of_interleave (RegistersWith .plain "token")
    Guard.none (System.init invited)
    [(register .plain (guest "one") ⟨2, 1⟩).void, (register .plain (guest "two") ⟨3, 2⟩).void]
    ([0, 0] ++ List.replicate 20 1 ++ [0, 0]) (fun s => s.store.wal.countP registers) 1
    (by simpa using ⟨⟨guest "one", ⟨2, 1⟩, rfl, rfl⟩, ⟨guest "two", ⟨3, 2⟩, rfl, rfl⟩⟩)
    (by decide +kernel)
  exact ⟨s, singleRedemption_of_reaches .plain "token" foreignKeys_invited hs, hobs⟩

end SideQuest
