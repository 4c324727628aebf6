import SideQuest.Auth.Sessions

-- Which of the places that let a user in still do so once the account is deactivated.

namespace SideQuest

open ReadCommitted AuthService

def Deactivated (userId : Id) (w : World) : Prop :=
  ∃ user, w.users.find? userId = some user ∧ user.status ≠ .ACTIVE

-- A token of the user.
def IssuedTo (host : Host) (userId : Id) (tokens : AuthTokens) : Prop :=
  (∃ payload iat, payload.sub = userId ∧ tokens.accessToken = host.signAccess payload iat) ∨
    ∃ iat, tokens.refreshToken = host.signRefresh userId iat

-- A request to one of the places, or any other one.
inductive AccessCall : Type 1 where
  | login (dto : LoginDto)
  | refresh (refreshToken : String)
  | validate (payload : JwtClaims)
  | tryResolveViewerUserId (authorization : Option String)
  | handleConnection (client : NotificationsGateway.Handshake)
  | other (request : Request Unit)
  | wait (elapsed : ℕ)

namespace AccessCall

def after (host : AuthHost) : AccessCall → World → World
  | .login dto, w => ((AuthService.login host dto).alone w).2
  | .refresh refreshToken, w => ((AuthService.refresh host refreshToken).alone w).2
  | .validate payload, w => ((JwtStrategy.validate payload).alone w).2
  | .tryResolveViewerUserId authorization, w =>
      ((AuthService.tryResolveViewerUserId host authorization).alone w).2
  | .handleConnection client, w => ((NotificationsGateway.handleConnection host client).alone w).2
  | .other request, w => (request.alone w).2
  | .wait elapsed, w => Backend.happen Stmt elapsed w

-- The call issues tokens for the user, takes the requester for him or lets a socket join
-- his room.
def LetsIn (host : AuthHost) (userId : Id) : AccessCall → World → Prop
  | .login dto, w => ∃ tokens, ((AuthService.login host dto).alone w).1 = .ok tokens ∧
      IssuedTo host.toHost userId tokens
  | .refresh refreshToken, w =>
      ∃ tokens, ((AuthService.refresh host refreshToken).alone w).1 = .ok tokens ∧
        IssuedTo host.toHost userId tokens
  | .validate payload, w => ∃ user, ((JwtStrategy.validate payload).alone w).1 = .ok user ∧
      user.id = userId
  | .tryResolveViewerUserId authorization, w =>
      ((AuthService.tryResolveViewerUserId host authorization).alone w).1 = .ok (some userId)
  | .handleConnection client, w =>
      ((NotificationsGateway.handleConnection host client).alone w).1 = .ok (some userId)
  | .other _, _ => False
  | .wait _, _ => False

-- No refresh token that the user holds at the moment is presented, and no access token
-- of his that has not expired at the gateway.
def PresentsNothing (host : AuthHost) (userId : Id) : AccessCall → World → Prop
  | .refresh refreshToken, w => ∀ user, Holds host w refreshToken user → user.id ≠ userId
  | .handleConnection client, w => ∀ token claims,
      NotificationsGateway.extractToken host client = some token → token ≠ "" →
        host.verifyAccess token (w.clock / 1000) = some claims → claims.sub ≠ some userId
  | _, _ => True

end AccessCall

section

variable {host : AuthHost} {userId : Id} {w : World}

theorem Deactivated.apply (h : Deactivated userId w) (wr : Write) :
    Deactivated userId (w.apply wr) := by
  obtain ⟨user, huser, hstatus⟩ := h
  cases wr with
  | userCreate row => exact ⟨user, Table.find?_insert_of_some huser row, hstatus⟩
  | userUpdate id d =>
      rw [Deactivated, World.find?_userUpdate, huser]
      split
      · exact ⟨d.apply user, rfl, hstatus⟩
      · exact ⟨user, rfl, hstatus⟩
  | _ => exact ⟨user, huser, hstatus⟩

theorem Deactivated.after (h : Deactivated userId w) (call : AccessCall) :
    Deactivated userId (call.after host w) := by
  have hrequest {α : Type} (p : Request α) : Deactivated userId (p.alone w).2 :=
    Prog.alone_keeps (fun _ wr hdb => hdb.apply wr) p h
  cases call with
  | wait elapsed => exact h
  | _ => exact hrequest _

theorem Deactivated.not_active (h : Deactivated userId w) {user : User}
    (huser : w.users.find? user.id = some user) (hactive : user.status = .ACTIVE) :
    user.id ≠ userId := by
  rintro rfl
  obtain ⟨row, hrow, hstatus⟩ := h
  rw [huser] at hrow
  exact hstatus (Option.some.inj hrow ▸ hactive)

theorem issuedTo_tokensFor (hhost : host.Lawful) {user : User} {now : Time} :
    IssuedTo host.toHost userId (tokensFor host.toHost user now) ↔ user.id = userId := by
  constructor
  · rintro (⟨payload, iat, hsub, htoken⟩ | ⟨iat, htoken⟩)
    · exact (hhost.signAccess_sub _ _ _ _ htoken).trans hsub
    · exact (hhost.signRefresh_inj _ _ _ _ htoken).1
  · rintro rfl
    exact Or.inr ⟨_, rfl⟩

theorem not_letsIn_login (hhost : host.Lawful) (h : Deactivated userId w) (dto : LoginDto) :
    ¬AccessCall.LetsIn host userId (.login dto) w := by
  rintro ⟨tokens, hok, hissued⟩
  rcases login_cases host dto w with ⟨herror, _⟩ | ⟨user, howns⟩
  · rw [hok] at herror
    cases herror
  · rw [login_alone howns] at hok
    cases hok
    exact h.not_active howns.find?_user howns.active ((issuedTo_tokensFor hhost).mp hissued)

theorem letsIn_refresh_iff (hhost : host.Lawful) (token : String) :
    AccessCall.LetsIn host userId (.refresh token) w ↔
      ∃ user, Holds host w token user ∧ user.id = userId := by
  constructor
  · rintro ⟨tokens, hok, hissued⟩
    rcases refresh_cases host token w with ⟨herror, _⟩ | ⟨user, hholds⟩
    · rw [hok] at herror
      cases herror
    · rw [refresh_alone hholds] at hok
      cases hok
      exact ⟨user, hholds, (issuedTo_tokensFor hhost).mp hissued⟩
  · rintro ⟨user, hholds, hid⟩
    exact ⟨tokensFor host.toHost user w.clock, by rw [refresh_alone hholds],
      (issuedTo_tokensFor hhost).mpr hid⟩

theorem not_letsIn_validate (h : Deactivated userId w) (payload : JwtClaims) :
    ¬AccessCall.LetsIn host userId (.validate payload) w := by
  have hends : Prog.Ends (fun answer _ => ∀ user, answer = .ok user → user.id ≠ userId)
      (JwtStrategy.validate payload) w := by
    unfold JwtStrategy.validate
    refine Prog.ends_expect (fun _ he => by cases he) fun payload _ => ?_
    refine Prog.ends_query (fun _ => rfl) (Prog.ends_expect (fun _ he => by cases he) ?_)
    intro user huser _ hok
    obtain ⟨hfound, hactive⟩ := Option.filter_eq_some_iff.mp huser
    cases hok
    have hid : user.id = payload.sub := Table.key_of_find? hfound
    exact h.not_active (hid ▸ hfound) (of_decide_eq_true hactive)
  exact fun ⟨user, hok, hid⟩ => hends user hok hid

theorem not_letsIn_tryResolve (h : Deactivated userId w) (authorization : Option String) :
    ¬AccessCall.LetsIn host userId (.tryResolveViewerUserId authorization) w := by
  have hends : Prog.Ends (fun answer _ => ∀ id, answer = .ok (some id) → id ≠ userId)
      (AuthService.tryResolveViewerUserId host authorization) w := by
    unfold tryResolveViewerUserId
    split
    · exact fun _ he => by cases he
    · refine Prog.ends_query (fun _ => rfl) ?_
      split
      · exact fun _ he => by cases he
      · rename_i decoded _
        refine Prog.ends_query (fun _ => rfl) fun id hok => ?_
        obtain ⟨user, huser, rfl⟩ := Option.map_eq_some_iff.mp (Except.ok.inj hok)
        obtain ⟨hfound, hactive⟩ := Option.filter_eq_some_iff.mp huser
        have hid : user.id = decoded.sub := Table.key_of_find? hfound
        exact h.not_active (hid ▸ hfound) (of_decide_eq_true hactive)
  exact fun hok => hends userId hok rfl

theorem letsIn_handleConnection_iff (client : NotificationsGateway.Handshake) :
    AccessCall.LetsIn host userId (.handleConnection client) w ↔
      ∃ token claims, NotificationsGateway.extractToken host client = some token ∧ token ≠ "" ∧
        host.verifyAccess token (w.clock / 1000) = some claims ∧ claims.sub = some userId := by
  have hanswer : ((NotificationsGateway.handleConnection host client).alone w).1 =
      .ok (((NotificationsGateway.extractToken host client).filter fun token => token ≠ "").bind
        fun token => (host.verifyAccess token (w.clock / 1000)).bind JwtClaims.sub) := by
    unfold NotificationsGateway.handleConnection
    split
    · rename_i hnone
      rw [hnone]
      rfl
    · rename_i token htoken
      rw [htoken]
      rfl
  rw [AccessCall.LetsIn, hanswer, Except.ok.injEq, Option.bind_eq_some_iff]
  constructor
  · rintro ⟨token, htoken, hclaims⟩
    obtain ⟨hextract, hne⟩ := Option.filter_eq_some_iff.mp htoken
    obtain ⟨claims, hverify, hsub⟩ := Option.bind_eq_some_iff.mp hclaims
    exact ⟨token, claims, hextract, of_decide_eq_true hne, hverify, hsub⟩
  · rintro ⟨token, claims, hextract, hne, hverify, hsub⟩
    exact ⟨token, Option.filter_eq_some_iff.mpr ⟨hextract, decide_eq_true hne⟩,
      Option.bind_eq_some_iff.mpr ⟨claims, hverify, hsub⟩⟩

theorem not_letsIn_iff (hhost : host.Lawful) (h : Deactivated userId w) (call : AccessCall) :
    ¬call.LetsIn host userId w ↔ call.PresentsNothing host userId w := by
  cases call with
  | login dto => exact iff_of_true (not_letsIn_login hhost h dto) trivial
  | refresh token =>
      rw [letsIn_refresh_iff hhost, not_exists]
      exact forall_congr' fun user => not_and
  | validate payload => exact iff_of_true (not_letsIn_validate h payload) trivial
  | tryResolveViewerUserId authorization =>
      exact iff_of_true (not_letsIn_tryResolve h authorization) trivial
  | handleConnection client =>
      rw [letsIn_handleConnection_iff]
      simp only [not_exists, not_and]
      rfl
  | other request => exact iff_of_true id trivial
  | wait elapsed => exact iff_of_true id trivial

-- Along every sequence of requests, a deactivated user is let in nowhere, exactly if nobody
-- presents his refresh token, or an access token of his at the gateway.
theorem lockedOut_iff_presentsNothing (hhost : host.Lawful) (h : Deactivated userId w)
    (calls : List AccessCall) :
    EachMeets (AccessCall.after host) (fun call w => ¬call.LetsIn host userId w) calls w ↔
      EachMeets (AccessCall.after host) (AccessCall.PresentsNothing host userId) calls w := by
  have hkeep (call : AccessCall) (db : World) (hdb : Deactivated userId db) :
      Deactivated userId (call.after host db) := hdb.after call
  exact eachMeets_congr hkeep (fun call _ hdb => not_letsIn_iff hhost hdb call) h calls

end

-- A suspended user with a session.
def suspendedRow : User where
  id := 1
  email := "ada@example.com"
  username := "ada"
  passwordHash := "hash:CorrectHorse"
  status := .SUSPENDED
  refreshTokenHash := some (refreshHash AuthHost.plain.toHost 1 0)

def suspended : World := { World.empty with users := Table.empty.insert suspendedRow }

theorem deactivated_suspended : Deactivated 1 suspended := ⟨suspendedRow, rfl, by decide⟩

-- Neither the password nor the access token helps.
theorem locked_out_suspended : EachMeets (AccessCall.after .plain)
    (fun call w => ¬call.LetsIn .plain 1 w) [.login ⟨"ada@example.com", "CorrectHorse"⟩,
      .tryResolveViewerUserId (some ("Bearer " ++ PlainToken.sign 'a' 1 0))] suspended :=
  (lockedOut_iff_presentsNothing AuthHost.plain_lawful deactivated_suspended _).mpr
    ⟨trivial, trivial, trivial⟩

-- `refresh` and `handleConnection` do not ask for the status.
theorem let_in_suspended :
    AccessCall.LetsIn .plain 1 (.refresh (AuthHost.plain.signRefresh 1 0)) suspended ∧
      AccessCall.LetsIn .plain 1 (.handleConnection { token := some (PlainToken.sign 'a' 1 0) })
        suspended := by
  have hholds : Holds .plain suspended (AuthHost.plain.signRefresh 1 0) suspendedRow :=
    ⟨by decide +kernel, rfl, _, rfl, by decide +kernel, by decide +kernel⟩
  refine ⟨(letsIn_refresh_iff AuthHost.plain_lawful _).mpr ⟨suspendedRow, hholds, rfl⟩, ?_⟩
  show Prod.fst _ = _
  decide +kernel

end SideQuest
