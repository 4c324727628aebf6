import SideQuest.Model.Sessions
import SideQuest.Invites.Alone

-- What the requests of `AuthService` do to the sessions when nobody interferes.

namespace SideQuest

open ReadCommitted

-- The hash of the refresh token that the user may exchange.
def World.sessionOf (w : World) (userId : Id) : Option String :=
  (w.users.find? userId).bind User.refreshTokenHash

namespace AuthService

def tokensFor (host : Host) (user : User) (now : Time) : AuthTokens :=
  ⟨host.signAccess ⟨user.id, user.email, user.username, user.role⟩ (now / 1000),
    host.signRefresh user.id (now / 1000)⟩

def refreshHash (host : Host) (userId : Id) (now : Time) : String :=
  host.argon2Hash (host.signRefresh userId (now / 1000))

def sessionWrite (userId : Id) (hash : Option String) : Write :=
  .userUpdate userId { refreshTokenHash := some hash }

variable {host : AuthHost} {w : World} {userId : Id}

theorem sessionOf_sessionWrite (h : (w.users.find? userId).isSome) (hash : Option String) (u : Id) :
    (w.apply (sessionWrite userId hash)).sessionOf u = if u = userId then hash else w.sessionOf u := by
  obtain ⟨user, huser⟩ := Option.isSome_iff_exists.mp h
  rw [World.sessionOf, sessionWrite, World.find?_userUpdate]
  split
  · rename_i hu
    rw [hu, huser]
    rfl
  · rfl

theorem sessionOf_userUpdate (v : Id) {d : UserUpdate} (hd : d.refreshTokenHash = none) (u : Id) :
    (w.apply (.userUpdate v d)).sessionOf u = w.sessionOf u := by
  rw [World.sessionOf, World.sessionOf, World.find?_userUpdate]
  split
  · cases w.users.find? u with
    | none => rfl
    | some row => simp [UserUpdate.apply, hd]
  · rfl

theorem isSome_userUpdate (v : Id) (d : UserUpdate) (u : Id) :
    ((w.apply (.userUpdate v d)).users.find? u).isSome = (w.users.find? u).isSome := by
  rw [World.find?_userUpdate]
  split
  · exact Option.isSome_map
  · rfl

theorem issueTokens_alone {host : Host} {user : User} (h : (w.users.find? user.id).isSome) :
    (issueTokens host user).alone w = (.ok (tokensFor host user w.clock),
      w.apply (sessionWrite user.id (some (refreshHash host user.id w.clock)))) := by
  obtain ⟨row, hrow⟩ := Option.isSome_iff_exists.mp h
  have hclock : Stmt.exec .now w = .ok (w.clock, []) := rfl
  have hupdate : Stmt.exec (.userUpdate user.id
      { refreshTokenHash := some (some (refreshHash host user.id w.clock)) }) w =
        .ok (UserUpdate.apply
            { refreshTokenHash := some (some (refreshHash host user.id w.clock)) } row,
          [sessionWrite user.id (some (refreshHash host user.id w.clock))]) := by
    simp only [Stmt.exec, hrow]
    rfl
  unfold issueTokens
  refine (Prog.alone_query hclock).trans ?_
  refine (Prog.alone_query hclock).trans ?_
  exact (Prog.alone_call hupdate).trans rfl

-- A verified refresh token names the user it was signed for.
theorem sub_of_signRefresh (hhost : host.Lawful) {id sub : Id} {iat now : ℤ}
    (h : (host.verifyRefresh (host.signRefresh id iat) now).bind isRefreshPayload = some ⟨sub⟩) :
    sub = id := by
  obtain ⟨claims, hclaims, hpayload⟩ := Option.bind_eq_some_iff.mp h
  obtain ⟨hsub, htype⟩ := hhost.verifyRefresh_sign _ _ _ _ hclaims
  simp only [isRefreshPayload, hsub, htype, if_pos] at hpayload
  cases hpayload
  rfl

-- The refresh token that the user holds at the moment.
structure Holds (host : AuthHost) (w : World) (token : String) (user : User) : Prop where
  payload : (host.verifyRefresh token (w.clock / 1000)).bind isRefreshPayload = some ⟨user.id⟩
  found : w.users.find? user.id = some user
  hash : ∃ hash, user.refreshTokenHash = some hash ∧ hash ≠ "" ∧ host.argon2Verify hash token = true

theorem refresh_alone {token : String} {user : User} (h : Holds host w token user) :
    (refresh host token).alone w = (.ok (tokensFor host.toHost user w.clock),
      w.apply (sessionWrite user.id (some (refreshHash host.toHost user.id w.clock)))) := by
  obtain ⟨hash, hhash, hne, hverify⟩ := h.hash
  have hfind : Stmt.exec (.userFindUnique user.id) w = .ok (some user, []) := by
    rw [Stmt.exec, h.found, ask]
  have hpayload : (verifyRefreshToken host token).alone w = (.ok ⟨user.id⟩, w) := by
    unfold verifyRefreshToken
    refine (Prog.alone_query (rfl : Stmt.exec .now w = .ok (w.clock, []))).trans ?_
    rw [h.payload]
    rfl
  have hfilter : user.refreshTokenHash.filter (fun hash => hash ≠ "") = some hash := by
    rw [hhash]
    simp [hne]
  unfold refresh
  refine (Prog.alone_bind hpayload).trans ?_
  refine (Prog.alone_query hfind).trans ?_
  refine (Prog.alone_expect rfl).trans ?_
  refine (Prog.alone_expect hfilter).trans ?_
  refine (Prog.alone_require hverify).trans ?_
  exact issueTokens_alone (Option.isSome_of_eq_some h.found)

-- `refresh` fails without a trace, or exchanges the token of its holder.
theorem refresh_cases (host : AuthHost) (token : String) (w : World) :
    (((refresh host token).alone w).1.isOk = false ∧ ((refresh host token).alone w).2 = w) ∨
      ∃ user, Holds host w token user := by
  have hends : Prog.Ends (fun answer w' => (answer.isOk = false ∧ w' = w) ∨
      ∃ user, Holds host w token user) (refresh host token) w := by
    unfold refresh verifyRefreshToken
    rw [Prog.bind_assoc]
    refine Prog.ends_query (fun _ => rfl) (Prog.ends_expect (Or.inl ⟨rfl, rfl⟩) fun payload hp => ?_)
    refine Prog.ends_query (fun _ => rfl) (Prog.ends_expect (Or.inl ⟨rfl, rfl⟩) fun user huser => ?_)
    refine Prog.ends_expect (Or.inl ⟨rfl, rfl⟩) fun hash hhash => ?_
    refine Prog.ends_require (Or.inl ⟨rfl, rfl⟩) fun hverify => Or.inr ⟨user, ?_⟩
    have hid : user.id = payload.sub := Table.key_of_find? huser
    obtain ⟨hstored, hne⟩ := Option.filter_eq_some_iff.mp hhash
    rw [← hid] at huser
    exact ⟨by rw [hp, hid], huser, hash, hstored, of_decide_eq_true hne, hverify⟩
  exact hends

-- The account that the credentials are those of.
structure Owns (host : AuthHost) (w : World) (dto : LoginDto) (user : User) : Prop where
  found : w.userByEmail dto.email = some user
  password : host.argon2Verify user.passwordHash dto.password = true
  active : user.status = .ACTIVE

theorem Owns.find?_user {dto : LoginDto} {user : User} (h : Owns host w dto user) :
    w.users.find? user.id = some user :=
  Table.find?_of_mem (List.mem_of_find?_eq_some h.found)

theorem recordLogin_alone {user : User} (h : w.users.find? userId = some user) :
    (recordLogin userId).alone w =
      (.ok (), w.apply (.userUpdate userId { lastLoginAt := some w.clock })) := by
  have hupdate : Stmt.exec (.userUpdate userId { lastLoginAt := some w.clock }) w =
      .ok (UserUpdate.apply { lastLoginAt := some w.clock } user,
        [.userUpdate userId { lastLoginAt := some w.clock }]) := by
    simp only [Stmt.exec, h]
  unfold recordLogin
  refine (Prog.alone_query (rfl : Stmt.exec .now w = .ok (w.clock, []))).trans ?_
  exact (Prog.alone_call hupdate).trans rfl

theorem login_alone {dto : LoginDto} {user : User} (h : Owns host w dto user) :
    (login host dto).alone w = (.ok (tokensFor host.toHost user w.clock),
      (w.apply (.userUpdate user.id { lastLoginAt := some w.clock })).apply
        (sessionWrite user.id (some (refreshHash host.toHost user.id w.clock)))) := by
  have hfound := h.find?_user
  have hemail : Stmt.exec (.userFindByEmail dto.email) w = .ok (some user, []) := by
    rw [Stmt.exec, h.found, ask]
  have hstill : ((w.apply (.userUpdate user.id { lastLoginAt := some w.clock })).users.find?
      user.id).isSome := by
    rw [isSome_userUpdate, hfound]
    rfl
  unfold login
  refine (Prog.alone_query hemail).trans ?_
  refine (Prog.alone_expect rfl).trans ?_
  refine (Prog.alone_require h.password).trans ?_
  refine (Prog.alone_require h.active).trans ?_
  refine (Prog.alone_bind (recordLogin_alone hfound)).trans ?_
  exact issueTokens_alone hstill

-- `login` fails without a trace, or logs the owner of the credentials in.
theorem login_cases (host : AuthHost) (dto : LoginDto) (w : World) :
    (((login host dto).alone w).1.isOk = false ∧ ((login host dto).alone w).2 = w) ∨
      ∃ user, Owns host w dto user := by
  have hends : Prog.Ends (fun answer w' => (answer.isOk = false ∧ w' = w) ∨
      ∃ user, Owns host w dto user) (login host dto) w := by
    unfold login
    refine Prog.ends_query (fun _ => rfl) (Prog.ends_expect (Or.inl ⟨rfl, rfl⟩) fun user huser => ?_)
    refine Prog.ends_require (Or.inl ⟨rfl, rfl⟩) fun hverify => ?_
    refine Prog.ends_require (Or.inl ⟨rfl, rfl⟩) fun hactive => Or.inr ⟨user, ?_⟩
    exact ⟨huser, hverify, hactive⟩
  exact hends

theorem logout_cases (userId : Id) (w : World) : ((logout userId).alone w).2 = w ∨
    (w.users.find? userId).isSome ∧
      ((logout userId).alone w).2 = w.apply (sessionWrite userId none) := by
  cases hfound : w.users.find? userId with
  | none => exact Or.inl (by simp [logout, Prog.call, Prog.alone, Stmt.exec, fail, hfound])
  | some user =>
      exact Or.inr ⟨rfl, by simp [logout, Prog.call, Prog.alone, Stmt.exec, hfound, sessionWrite]⟩

section Register

variable {host : Host} {dto : RegisterDto} {ids : FreshIds} {id : Id} {w' w'' : World}

-- What a registration has done before it signs the tokens.
structure Registered (host : Host) (dto : RegisterDto) (id : Id) (w w' : World) : Prop where
  clock : w'.clock = w.clock
  sessions : ∀ u, w'.sessionOf u = w.sessionOf u
  account : ∃ row, w'.users.find? id = some row ∧
    row.email = host.toLowerCase (host.trim dto.email) ∧
      row.passwordHash = host.argon2Hash dto.password

theorem registered_create (h : w.users.find? id = none) :
    Registered host dto id w (w.apply (.userCreate (newUser host dto id))) where
  clock := rfl
  sessions u := by
    have hfind : (w.apply (.userCreate (newUser host dto id))).users.find? u = _ :=
      Table.find?_insert h u
    rw [World.sessionOf, World.sessionOf, hfind]
    split
    · rename_i hu
      have hnone : w.users.find? u = none := hu ▸ h
      rw [hnone]
      rfl
    · rfl
  account := by
    have hfind : (w.apply (.userCreate (newUser host dto id))).users.find? id = _ :=
      Table.find?_insert h id
    exact ⟨newUser host dto id, hfind.trans (if_pos rfl), rfl, rfl⟩

theorem Registered.of_users (h : Registered host dto id w w') (hclock : w''.clock = w'.clock)
    (husers : w''.users = w'.users) : Registered host dto id w w'' where
  clock := hclock.trans h.clock
  sessions u := by
    rw [← h.sessions, World.sessionOf, World.sessionOf, husers]
  account := by
    rw [husers]
    exact h.account

theorem Registered.update (h : Registered host dto id w w') (u : Id) {d : UserUpdate}
    (hd : d.refreshTokenHash = none) :
    Registered host dto id w (w'.apply (.userUpdate u d)) where
  clock := h.clock
  sessions v := (sessionOf_userUpdate u hd v).trans (h.sessions v)
  account := by
    obtain ⟨row, hrow, hemail, hpassword⟩ := h.account
    rw [World.find?_userUpdate, hrow]
    split
    · exact ⟨d.apply row, rfl, hemail, hpassword⟩
    · exact ⟨row, rfl, hemail, hpassword⟩

theorem registerTx_returns (host : Host) (dto : RegisterDto) (ids : FreshIds) (w : World) :
    Tx.Returns (fun a ws => a.1 = newUser host dto ids.user ∧
      Registered host dto ids.user w (view Stmt w ws)) (registerTx host dto ids) [] w := by
  intro a ws hrun
  have hwp : (Rules.alone fun _ : World => True).wpTx 0
      (fun _ ws a s' => a.1 = newUser host dto ids.user ∧
        Registered host dto ids.user s'.db (view Stmt s'.db ws))
      (registerTx host dto ids) [] [] ⟨w, []⟩ := by
    apply wpTx_registerTx
    · intro _ s' create _
      have hfree : s'.db.users.find? ids.user = none := create.to_next.2 ▸ create.free
      exact ⟨rfl, registered_create hfree⟩
    · intro token _ outcome s' t _
      have hcreated : Registered host dto ids.user s'.db _ := registered_create t.user_free
      have hpaid := (hcreated.update t.claim.invite.inviterId
        (rfl : (InvitesService.referralData t.award.inviter).refreshTokenHash = none)).update ids.user
          (rfl : (InvitesService.referralData t.award.invitee).refreshTokenHash = none)
      exact ⟨rfl, hpaid.of_users (clock_view s'.db t.writes) (t.users_view s'.db)⟩
  obtain ⟨_, h⟩ := Rules.wpTx_alone trivial hwp hrun
  exact h

-- `register` fails without a trace, or creates the account and logs it in.
theorem register_cases (host : Host) (dto : RegisterDto) (ids : FreshIds) (w : World) :
    (((register host dto ids).alone w).1.isOk = false ∧ ((register host dto ids).alone w).2 = w) ∨
      ∃ w', Registered host dto ids.user w w' ∧ (register host dto ids).alone w =
        (.ok (tokensFor host (newUser host dto ids.user) w.clock),
          w'.apply (sessionWrite ids.user (some (refreshHash host ids.user w.clock)))) := by
  let E (answer : Except ApiError AuthTokens) (after : World) : Prop :=
    (answer.isOk = false ∧ after = w) ∨ ∃ w', Registered host dto ids.user w w' ∧
      (answer, after) = (.ok (tokensFor host (newUser host dto ids.user) w.clock),
        w'.apply (sessionWrite ids.user (some (refreshHash host ids.user w.clock))))
  have hissue {w' : World} (h : Registered host dto ids.user w w') :
      Prog.Ends E (issueTokens host (newUser host dto ids.user)) w' := by
    obtain ⟨row, hrow, _⟩ := h.account
    have hfound : (w'.users.find? (newUser host dto ids.user).id).isSome :=
      Option.isSome_of_eq_some hrow
    have halone : (issueTokens host (newUser host dto ids.user)).alone w' = _ :=
      issueTokens_alone hfound
    rw [h.clock] at halone
    exact Or.inr ⟨w', h, halone⟩
  show Prog.Ends E (register host dto ids) w
  unfold register
  refine Prog.ends_query (fun _ => rfl) (Prog.ends_require (Or.inl ⟨rfl, rfl⟩) fun _ => ?_)
  refine Prog.ends_query (fun _ => rfl) (Prog.ends_require (Or.inl ⟨rfl, rfl⟩) fun _ => ?_)
  refine Prog.ends_transaction (fun _ => Or.inl ⟨rfl, rfl⟩) fun a ws hrun => ?_
  obtain ⟨user, referral⟩ := a
  obtain ⟨rfl, hregistered⟩ := registerTx_returns host dto ids w _ ws hrun
  cases referral with
  | none => exact hissue hregistered
  | some out =>
      have hemit := InvitesService.emitReferralCompleted_alone out (view Stmt w ws)
      have hafter := hregistered.of_users
        (clock_view _ ((InvitesService.referralEvents out).map .emit))
        (by rw [view_emits])
      show Prog.Ends E (InvitesService.emitReferralCompleted out >>= fun _ => issueTokens host _) _
      rw [Prog.Ends, Prog.alone_bind hemit]
      exact hissue hafter

end Register

end AuthService

-- The plain host keeps the promises of the packages.
namespace PlainToken

variable {kind : Char} {id id' : Id} {iat iat' : ℤ}

theorem toList_sign (kind : Char) (id : Id) (iat : ℤ) : (sign kind id iat).toList =
    kind :: List.replicate id 'u' ++
      (if 0 ≤ iat then '+' else '-') :: List.replicate iat.natAbs 's' :=
  String.toList_ofList

theorem sub_sign (hkind : kind ≠ 'u') : sub (sign kind id iat) = id := by
  have hsign : (if 0 ≤ iat then '+' else '-') ≠ 'u' := by split <;> decide
  rw [sub, toList_sign]
  simp [List.count_replicate, hkind, hsign]

theorem count_seconds (hkind : kind ≠ 's') : (sign kind id iat).toList.count 's' = iat.natAbs := by
  have hsign : (if 0 ≤ iat then '+' else '-') ≠ 's' := by split <;> decide
  rw [toList_sign]
  simp [List.count_replicate, hkind, hsign]

theorem count_plus (hkind : kind ≠ '+') :
    (sign kind id iat).toList.count '+' = if 0 ≤ iat then 1 else 0 := by
  rw [toList_sign]
  by_cases h : 0 ≤ iat <;> simp [List.count_replicate, hkind, h]

theorem sign_inj (hkind : kind ∉ ['u', 's', '+']) (h : sign kind id iat = sign kind id' iat') :
    id = id' ∧ iat = iat' := by
  simp only [List.mem_cons, List.not_mem_nil, or_false, not_or] at hkind
  obtain ⟨hu, hs, hplus⟩ := hkind
  have hseconds := congrArg (fun token : String => token.toList.count 's') h
  have hsign := congrArg (fun token : String => token.toList.count '+') h
  simp only [count_seconds hs, count_plus hplus] at hseconds hsign
  refine ⟨(sub_sign hu).symm.trans ((congrArg sub h).trans (sub_sign hu)), ?_⟩
  split at hsign <;> split at hsign <;> omega

end PlainToken

theorem verifyRefresh_plain (token : String) (now : ℤ) : AuthHost.plain.verifyRefresh token now =
    (PlainToken.verify 'r' 604800 token now).map
      fun sub => { sub := some sub, tokenType := some "refresh" } := rfl

theorem AuthHost.plain_lawful : AuthHost.plain.Lawful where
  argon2Verify_iff password guess := by
    show decide ("hash:" ++ password = "hash:" ++ guess) = true ↔ _
    rw [decide_eq_true_iff, String.append_right_inj, eq_comm]
  signAccess_sub _ _ _ _ h := (PlainToken.sign_inj (by decide) h).1
  signRefresh_inj _ _ _ _ h := PlainToken.sign_inj (by decide) h
  verifyRefresh_sign id iat now claims h := by
    rw [verifyRefresh_plain] at h
    obtain ⟨sub, hverify, rfl⟩ := Option.map_eq_some_iff.mp h
    have hsub : PlainToken.sub (PlainToken.sign 'r' id iat) = id := PlainToken.sub_sign (by decide)
    have hsame := (Option.ite_none_right_eq_some.mp hverify).2
    exact ⟨hsame.symm.trans (congrArg some hsub), rfl⟩

def ada (email : String) : AuthService.RegisterDto where
  email := email
  username := "ada"
  password := "CorrectHorse"

end SideQuest
