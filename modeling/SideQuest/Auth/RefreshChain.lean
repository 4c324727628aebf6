import SideQuest.Auth.Requests
import Mathlib.Data.List.Infix

-- A logout ends the refresh chain, as long as no request that has begun before writes its
-- session after it.

namespace SideQuest

open ReadCommitted AuthService

inductive SessionCall where
  | login (dto : LoginDto)
  | refresh (refreshToken : String)
  | logout (userId : Id)

def SessionCall.request (host : AuthHost) : SessionCall → Request Unit
  | .login dto => (AuthService.login host dto).void
  | .refresh refreshToken => (AuthService.refresh host refreshToken).void
  | .logout userId => AuthService.logout userId

section Log

variable (userId : Id)

def sessionChange : Write → Option (Option String)
  | .userUpdate id d => if id = userId then d.refreshTokenHash else none
  | _ => none

-- The sessions of the user in the order of their commits, each with its thread.
def sessionLog (wal : List (ℕ × List Write)) : List (ℕ × Option String) :=
  wal.flatMap fun entry => (entry.2.filterMap (sessionChange userId)).map fun hash => (entry.1, hash)

theorem sessionLog_append (wal wal' : List (ℕ × List Write)) :
    sessionLog userId (wal ++ wal') = sessionLog userId wal ++ sessionLog userId wal' :=
  List.flatMap_append

theorem sessionLog_single (me : ℕ) (wr : Write) : sessionLog userId [(me, [wr])] =
    ((sessionChange userId wr).map fun hash => (me, hash)).toList := by
  simp only [sessionLog, List.flatMap_cons, List.flatMap_nil, List.append_nil]
  cases h : sessionChange userId wr <;> simp [h]

end Log

-- The stored hash is the last session of the log, and each session is that of a token
-- signed for the user.
structure SessionsLogged (host : AuthHost) (userId : Id) (s : Store World Write) : Prop where
  found : (s.db.users.find? userId).isSome
  current : ∀ last, (sessionLog userId s.wal).getLast? = some last → s.db.sessionOf userId = last.2
  signed : ∀ entry ∈ sessionLog userId s.wal, ∀ hash, entry.2 = some hash →
    ∃ iat, hash = host.argon2Hash (host.signRefresh userId iat)

-- The user's refresh token that the thread has got at that second.
def SignedAt (host : AuthHost) (userId : Id) (iat : ℤ) (entry : ℕ × Option String) : Prop :=
  entry.2 = some (host.argon2Hash (host.signRefresh userId iat))

-- What follows `before` in the log is the work of the requests from `n` on, and these do
-- not sign in a second in which an earlier request has signed.
structure OldRequestsDone (host : AuthHost) (userId : Id) (n : ℕ)
    (before wal : List (ℕ × List Write)) : Prop where
  late : ∀ entry ∈ sessionLog userId (wal.drop before.length), entry.2 ≠ none → n ≤ entry.1
  seconds : ∀ entry ∈ sessionLog userId wal, ∀ entry' ∈ sessionLog userId wal,
    entry.1 < n → n ≤ entry'.1 → ∀ iat, SignedAt host userId iat entry →
      ¬SignedAt host userId iat entry'

section Commits

variable {host : AuthHost} {userId : Id} {n i me : ℕ} {before wal wal' : List (ℕ × List Write)}
  {s : Store World Write} {id : Id} {d : UserUpdate}

theorem sessionOf_userUpdate_change {w : World} (h : (w.users.find? userId).isSome) :
    (w.apply (.userUpdate id d)).sessionOf userId =
      (sessionChange userId (.userUpdate id d)).getD (w.sessionOf userId) := by
  obtain ⟨user, huser⟩ := Option.isSome_iff_exists.mp h
  rw [World.sessionOf, World.sessionOf, World.find?_userUpdate, sessionChange, huser]
  by_cases hu : userId = id
  · rw [if_pos hu, if_pos hu.symm]
    rfl
  · rw [if_neg hu, if_neg (Ne.symm hu)]
    rfl

theorem SessionsLogged.commit (h : SessionsLogged host userId s) (me : ℕ)
    (hsigned : ∀ hash, d.refreshTokenHash = some (some hash) →
      ∃ iat, hash = host.argon2Hash (host.signRefresh id iat)) :
    SessionsLogged host userId (s.commit Stmt me [.userUpdate id d]) := by
  have hlog : sessionLog userId (s.commit Stmt me [.userUpdate id d]).wal =
      sessionLog userId s.wal ++
        ((sessionChange userId (.userUpdate id d)).map fun hash => (me, hash)).toList := by
    rw [Store.commit_wal_cons, sessionLog_append, sessionLog_single]
  have hsession : (s.commit Stmt me [.userUpdate id d]).db.sessionOf userId = _ :=
    sessionOf_userUpdate_change h.found
  refine ⟨?_, ?_, ?_⟩
  · exact (isSome_userUpdate id d userId).trans h.found
  · intro last hlast
    rw [hlog] at hlast
    rw [hsession]
    cases hchange : sessionChange userId (.userUpdate id d) with
    | none =>
        rw [hchange] at hlast
        exact h.current last (by simpa using hlast)
    | some hash =>
        rw [hchange] at hlast
        have heq : (me, hash) = last := by simpa using hlast
        rw [← heq]
        rfl
  · intro entry hentry hash hhash
    rw [hlog] at hentry
    rcases List.mem_append.mp hentry with hold | hnew
    · exact h.signed entry hold hash hhash
    · obtain ⟨change, hchange, rfl⟩ := Option.map_eq_some_iff.mp (Option.mem_toList.mp hnew)
      simp only [sessionChange] at hchange
      split at hchange
      · rename_i hid
        obtain ⟨iat, hiat⟩ := hsigned hash (by rw [hchange, ← hhash])
        exact ⟨iat, hid ▸ hiat⟩
      · cases hchange

theorem OldRequestsDone.of_prefix (h : OldRequestsDone host userId n before wal')
    (hgrown : wal <+: wal') : OldRequestsDone host userId n before wal := by
  have hsub {l l' : List (ℕ × List Write)} (hl : l <+: l') :
      ∀ entry ∈ sessionLog userId l, entry ∈ sessionLog userId l' := by
    obtain ⟨more, rfl⟩ := hl
    rw [sessionLog_append]
    exact fun entry hentry => List.mem_append_left _ hentry
  refine ⟨fun entry hentry => h.late entry (hsub (List.IsPrefix.drop hgrown _) entry hentry), ?_⟩
  intro entry hentry entry' hentry'
  exact h.seconds entry (hsub hgrown entry hentry) entry' (hsub hgrown entry' hentry')

-- Thread `i` commits nothing, unless an earlier request writes its session late.
def revokedContract (host : AuthHost) (userId : Id) (n i : ℕ) (before : List (ℕ × List Write)) :
    Contract Stmt World Write where
  inv s := SessionsLogged host userId s ∧
    (OldRequestsDone host userId n before s.wal → s.own i = [])
  guar s s' := s.wal <+: s'.wal
  guard := Guard.none
  guar_refl s := List.prefix_refl s.wal
  guar_trans h h' := h.trans h'

theorem revoked_commits (hs : (revokedContract host userId n i before).inv s)
    (hsigned : ∀ hash, d.refreshTokenHash = some (some hash) →
      ∃ iat, hash = host.argon2Hash (host.signRefresh id iat))
    (hme : me ≠ i ∨ ¬OldRequestsDone host userId n before s.wal) :
    (revokedContract host userId n i before).rules.Commits me s [.userUpdate id d] := by
  have hgrows : s.wal <+: (s.commit Stmt me [.userUpdate id d]).wal := List.prefix_append _ _
  refine ⟨⟨hs.1.commit me hsigned, fun hdone => ?_⟩, hgrows⟩
  rcases hme with hne | hlate
  · rw [Store.own_commit_ne s hne]
    exact hs.2 (hdone.of_prefix hgrows)
  · exact absurd (hdone.of_prefix hgrows) hlate

theorem revoked_commits_sign (hs : (revokedContract host userId n i before).inv s) (iat : ℤ)
    (hme : me ≠ i ∨ ¬OldRequestsDone host userId n before s.wal) :
    (revokedContract host userId n i before).rules.Commits me s [signWrite host.toHost id iat] := by
  refine revoked_commits hs (fun hash hhash => ⟨iat, ?_⟩) hme
  cases hhash
  rfl

theorem SessionCall.wp_revoked (call : SessionCall) (hne : me ≠ i) :
    (revokedContract host userId n i before).rules.wp me (fun _ _ => True) (call.request host) s := by
  cases call with
  | login dto =>
      refine Rules.wp_void (wp_login ?_ ?_)
      · exact fun s' id now hs' _ => revoked_commits hs' (fun _ h => by cases h) (Or.inl hne)
      · exact fun s' id iat hs' _ => revoked_commits_sign hs' iat (Or.inl hne)
  | refresh refreshToken =>
      refine Rules.wp_void (wp_refresh fun s₁ s' user iat _ _ hr _ => ?_)
      exact revoked_commits_sign (Rules.rely_inv _ hr) iat (Or.inl hne)
  | logout u =>
      refine wp_logout fun s' hs' _ => ?_
      exact revoked_commits hs' (fun _ h => by cases h) (Or.inl hne)

theorem argon2Hash_inj (hhost : host.Lawful) {p p' : String}
    (h : host.argon2Hash p = host.argon2Hash p') : p = p' := by
  have hverify := (hhost.argon2Verify_iff p p).mpr rfl
  rw [h] at hverify
  exact (hhost.argon2Verify_iff p' p).mp hverify

-- After the logout the session is that of a later request, whose token is another one.
theorem not_accepted (hhost : host.Lawful) (h : SessionsLogged host userId s)
    (hbefore : before <+: s.wal) {k : ℕ} (hlogout : (sessionLog userId before).getLast? = some (k, none))
    {token : String} {j : ℕ} (hj : j < n)
    (hold : (j, some (host.argon2Hash token)) ∈ sessionLog userId before)
    (hdone : OldRequestsDone host userId n before s.wal) {user : User} :
    ¬Accepted host token s.db user := by
  intro haccepted
  obtain ⟨more, hmore⟩ := hbefore
  have hlog : sessionLog userId s.wal = sessionLog userId before ++ sessionLog userId more := by
    rw [← hmore, sessionLog_append]
  have holdLog := hlog ▸ List.mem_append_left (sessionLog userId more) hold
  obtain ⟨iat, hiat⟩ := h.signed _ holdLog _ rfl
  obtain rfl := argon2Hash_inj hhost hiat
  -- the token names the user, so it is compared with his session
  have hid : user.id = userId := by
    obtain ⟨now, hpayload⟩ := haccepted.payload
    exact sub_of_signRefresh hhost hpayload
  obtain ⟨hash, hhash, hverify⟩ := haccepted.hash
  have hsession : s.db.sessionOf userId = some hash := by
    rw [World.sessionOf, ← hid, haccepted.found]
    exact hhash
  cases hlast : (sessionLog userId more).getLast? with
  | none =>
      have hcurrent := h.current (k, none) (by rw [hlog, List.getLast?_append, hlast, hlogout]; rfl)
      rw [hsession] at hcurrent
      cases hcurrent
  | some last =>
      have hmem := List.mem_of_getLast? hlast
      have hcurrent := h.current last (by rw [hlog, List.getLast?_append, hlast]; rfl)
      rw [hsession] at hcurrent
      obtain ⟨iat', rfl⟩ := h.signed last (hlog ▸ List.mem_append_right _ hmem) hash hcurrent.symm
      have hsame := (hhost.argon2Verify_iff _ _).mp hverify
      have hlater : n ≤ last.1 := by
        refine hdone.late last ?_ (by rw [← hcurrent]; exact Option.some_ne_none _)
        rwa [← hmore, List.drop_left]
      have hsigned : SignedAt host userId iat last := by
        rw [SignedAt, ← hcurrent, hsame]
      exact hdone.seconds _ holdLog last (hlog ▸ List.mem_append_right _ hmem) hj hlater iat rfl hsigned

theorem wp_revoked_refresh (hhost : host.Lawful) {k : ℕ}
    (hlogout : (sessionLog userId before).getLast? = some (k, none)) {token : String} {j : ℕ}
    (hj : j < n) (hold : (j, some (host.argon2Hash token)) ∈ sessionLog userId before)
    (hbefore : before <+: s.wal) : (revokedContract host userId n i before).rules.wp i
      (fun _ _ => True) ((SessionCall.refresh token).request host) s := by
  refine Rules.wp_void (wp_refresh fun s₁ s' user iat h₁ haccepted hr _ => ?_)
  have hlogged : SessionsLogged host userId s₁ := (Rules.rely_inv _ h₁).1
  refine revoked_commits_sign (Rules.rely_inv _ hr) iat (Or.inr fun hdone => ?_)
  exact not_accepted hhost hlogged (hbefore.trans h₁.2.1) hlogout hj hold
    (hdone.of_prefix hr.2.1) haccepted

theorem revoked_init {w : World} (h : (w.users.find? userId).isSome) :
    (revokedContract host userId n i before).inv ⟨w, []⟩ := by
  have hlogged : SessionsLogged host userId ⟨w, []⟩ := {
    found := h
    current := fun _ hlast => by cases hlast
    signed := fun _ hentry => by cases hentry }
  exact ⟨hlogged, fun _ => rfl⟩

theorem revoked_happen (elapsed : ℕ) (hs : (revokedContract host userId n i before).inv s) :
    (revokedContract host userId n i before).inv ⟨Backend.happen Stmt elapsed s.db, s.wal⟩ :=
  ⟨⟨hs.1.found, hs.1.current, hs.1.signed⟩, hs.2⟩

end Commits

section Runs

variable {host : AuthHost} {userId : Id} {w : World} {call : ℕ → SessionCall} {k i : ℕ}
  {s₁ s₂ : System Stmt World Write ApiError} {token : String}

-- A `refresh` begun after the logout, with a token that was issued before.
theorem own_eq_nil_of_issued (hhost : host.Lawful) (hu : (w.users.find? userId).isSome)
    (h₁ : System.Runs (fun i => (call i).request host) Guard.none (System.init w) s₁)
    (hlogout : s₁.store.wal.getLast? = some (k, [sessionWrite userId none]))
    (h₂ : System.Runs (fun i => (call i).request host) Guard.none s₁ s₂)
    (hdone : OldRequestsDone host userId s₁.threads.length s₁.store.wal s₂.store.wal)
    (hi : s₁.threads.length ≤ i) (hcall : call i = .refresh token) {j : ℕ}
    (hj : j < s₁.threads.length)
    (hissued : (j, some (host.argon2Hash token)) ∈ sessionLog userId s₂.store.wal) :
    s₂.store.own i = [] := by
  let C := revokedContract host userId s₁.threads.length i s₁.store.wal
  have hhappen (elapsed : ℕ) (st : Store World Write) (hst : C.inv st) :
      C.inv ⟨Backend.happen Stmt elapsed st.db, st.wal⟩ ∧
        C.guar st ⟨Backend.happen Stmt elapsed st.db, st.wal⟩ :=
    ⟨revoked_happen elapsed hst, List.prefix_refl _⟩
  have hsafe₁ : s₁.Safe C := (System.Runs.safe (System.init_safe (revoked_init hu)) h₁
    (fun me st _ hlt _ _ => (call me).wp_revoked (Nat.ne_of_lt (Nat.lt_of_lt_of_le hlt hi)))
    hhappen).1
  have hlast : (sessionLog userId s₁.store.wal).getLast? = some (k, none) := by
    obtain ⟨earlier, hwal⟩ := List.getLast?_eq_some_iff.mp hlogout
    rw [hwal, sessionLog_append, sessionLog_single, sessionWrite, sessionChange, if_pos rfl]
    exact List.getLast?_concat
  -- the old request has written the session before the logout
  have hold : (j, some (host.argon2Hash token)) ∈ sessionLog userId s₁.store.wal := by
    obtain ⟨later, hlater⟩ := h₂.wal_prefix
    rw [← hlater, sessionLog_append] at hissued
    refine (List.mem_append.mp hissued).resolve_right fun hmem => ?_
    have hlate := hdone.late _ (by rwa [← hlater, List.drop_left]) (Option.some_ne_none _)
    exact absurd hj (Nat.not_lt.mpr hlate)
  have hsafe₂ : s₂.Safe C := by
    refine (System.Runs.safe hsafe₁ h₂ (fun me st _ _ _ hgrows => ?_) hhappen).1
    by_cases hme : me = i
    · rw [hme, hcall]
      exact wp_revoked_refresh hhost hlast hj hold hgrows
    · exact (call me).wp_revoked hme
  exact hsafe₂.inv.2 hdone

-- The tokens of the user that were issued by a request with a number below `n`, and those
-- that were issued in exchange for one of them.
inductive Descends (host : AuthHost) (userId : Id) (n : ℕ) (call : ℕ → SessionCall)
    (wal : List (ℕ × List Write)) : String → Prop
  | issued {token : String} {j : ℕ} : j < n →
      (j, some (host.argon2Hash token)) ∈ sessionLog userId wal →
        Descends host userId n call wal token
  | exchanged {token token' : String} {i : ℕ} : Descends host userId n call wal token →
      call i = .refresh token → (i, some (host.argon2Hash token')) ∈ sessionLog userId wal →
        Descends host userId n call wal token'

theorem own_ne_nil_of_mem {st : Store World Write} {entry : ℕ × Option String}
    (h : entry ∈ sessionLog userId st.wal) : st.own entry.1 ≠ [] := by
  obtain ⟨commit, hcommit, hentry⟩ := List.mem_flatMap.mp h
  obtain ⟨hash, _, rfl⟩ := List.mem_map.mp hentry
  exact List.ne_nil_of_mem (List.mem_filter.mpr ⟨hcommit, by simp⟩)

-- The logout ends the chain: no `refresh` begun after it gets anything for a token that an
-- earlier request was issued, or for one that descends from it.
theorem chain_revoked (hhost : host.Lawful) (hu : (w.users.find? userId).isSome)
    (h₁ : System.Runs (fun i => (call i).request host) Guard.none (System.init w) s₁)
    (hlogout : s₁.store.wal.getLast? = some (k, [sessionWrite userId none]))
    (h₂ : System.Runs (fun i => (call i).request host) Guard.none s₁ s₂)
    (hdone : OldRequestsDone host userId s₁.threads.length s₁.store.wal s₂.store.wal)
    (hi : s₁.threads.length ≤ i) (hcall : call i = .refresh token)
    (htoken : Descends host userId s₁.threads.length call s₂.store.wal token) :
    s₂.store.own i = [] := by
  have hold : ∃ j, j < s₁.threads.length ∧
      (j, some (host.argon2Hash token)) ∈ sessionLog userId s₂.store.wal := by
    clear hcall
    induction htoken with
    | @issued token j hj hissued => exact ⟨j, hj, hissued⟩
    | @exchanged token token' m _ hexchange hissued ih =>
        obtain ⟨j, hj, hbefore⟩ := ih
        by_cases hm : m < s₁.threads.length
        · exact ⟨m, hm, hissued⟩
        · have hnone := own_eq_nil_of_issued hhost hu h₁ hlogout h₂ hdone (Nat.le_of_not_lt hm)
            hexchange hj hbefore
          exact absurd hnone (own_ne_nil_of_mem hissued)
  obtain ⟨j, hj, hissued⟩ := hold
  exact own_eq_nil_of_issued hhost hu h₁ hlogout h₂ hdone hi hcall hj hissued

end Runs

-- One user without a session.
def adaSignedOut : User where
  id := 1
  email := "ada@example.com"
  username := "ada"
  passwordHash := "hash:CorrectHorse"

def signedOut : World := { World.empty with users := Table.empty.insert adaSignedOut }

theorem found_signedOut : (signedOut.users.find? 1).isSome := by decide +kernel

def loginLogoutRefresh (i : ℕ) : SessionCall :=
  [.login ⟨"ada@example.com", "CorrectHorse"⟩, .logout 1,
    .refresh (AuthHost.plain.signRefresh 1 0)].getD i (.logout 1)

-- The token of the login, presented after the logout.
theorem chain_revoked_after_login : ∃ s₂ : System Stmt World Write ApiError,
    s₂.store.own 2 = [] ∧ (sessionLog 1 s₂.store.wal).map Prod.fst = [0, 1] := by
  let program (i : ℕ) : Request Unit := (loginLogoutRefresh i).request .plain
  obtain ⟨s₁, s₂, h₁, h₂, hobs⟩ := System.exists_runs_of_play_play program Guard.none
    (System.init signedOut)
    [.spawn (program 0), .next 0, .next 0, .next 0, .next 0, .next 0, .next 0,
      .spawn (program 1), .next 1]
    [.spawn (program 2), .next 2, .next 2]
    (fun s₁ s₂ => decide (s₁.store.wal.getLast? = some (1, [sessionWrite 1 none]) ∧
      s₁.threads.length = 2 ∧ sessionLog 1 (s₂.store.wal.drop s₁.store.wal.length) = [] ∧
      sessionLog 1 s₂.store.wal = [(0, some (refreshHash AuthHost.plain.toHost 1 0)), (1, none)]))
    true 2 1 rfl rfl (by decide +kernel)
  obtain ⟨hlogout, hlength, hlater, hlog⟩ := of_decide_eq_true hobs
  have hdone : OldRequestsDone .plain 1 s₁.threads.length s₁.store.wal s₂.store.wal := by
    refine ⟨fun entry hentry => ?_, fun entry _ entry' hentry' _ hnew => ?_⟩
    · rw [hlater] at hentry
      cases hentry
    · rw [hlog] at hentry'
      rw [hlength] at hnew
      simp only [List.mem_cons, List.not_mem_nil, or_false] at hentry'
      rcases hentry' with rfl | rfl <;> exact absurd hnew (by decide)
  have hissued : Descends .plain 1 s₁.threads.length loginLogoutRefresh s₂.store.wal
      (AuthHost.plain.signRefresh 1 0) := .issued
        (show 0 < s₁.threads.length by omega) (by simp [hlog, refreshHash])
  exact ⟨s₂, chain_revoked AuthHost.plain_lawful found_signedOut h₁ hlogout h₂ hdone hlength.le rfl
    hissued, by simp [hlog]⟩

def refreshPastLogout (i : ℕ) : SessionCall :=
  [.login ⟨"ada@example.com", "CorrectHorse"⟩, .refresh (AuthHost.plain.signRefresh 1 0), .logout 1,
    .refresh (AuthHost.plain.signRefresh 1 1)].getD i (.logout 1)

-- A `refresh` reads the session, the logout ends it, and then the `refresh` writes a new one,
-- whose token is accepted.
theorem chain_survives_logout : ∃ s₁ s₂ : System Stmt World Write ApiError,
    System.Runs (fun i => (refreshPastLogout i).request .plain) Guard.none (System.init signedOut) s₁ ∧
      s₁.store.wal.getLast? = some (2, [sessionWrite 1 none]) ∧
      System.Runs (fun i => (refreshPastLogout i).request .plain) Guard.none s₁ s₂ ∧
      s₁.threads.length ≤ 3 ∧ refreshPastLogout 3 = .refresh (AuthHost.plain.signRefresh 1 1) ∧
      Descends .plain 1 s₁.threads.length refreshPastLogout s₂.store.wal
        (AuthHost.plain.signRefresh 1 1) ∧
      s₂.store.own 3 = [(3, [signWrite AuthHost.plain.toHost 1 2])] := by
  let program (i : ℕ) : Request Unit := (refreshPastLogout i).request .plain
  obtain ⟨s₁, s₂, h₁, h₂, hobs⟩ := System.exists_runs_of_play_play program Guard.none
    (System.init signedOut)
    [.spawn (program 0), .next 0, .next 0, .next 0, .next 0, .next 0, .next 0, .happen 1000,
      .spawn (program 1), .next 1, .next 1, .next 1, .next 1, .spawn (program 2), .next 2]
    [.next 1, .happen 1000, .spawn (program 3), .next 3, .next 3, .next 3, .next 3, .next 3]
    (fun s₁ s₂ => decide (s₁.store.wal.getLast? = some (2, [sessionWrite 1 none]) ∧
      s₁.threads.length = 3 ∧ s₂.store.own 3 = [(3, [signWrite AuthHost.plain.toHost 1 2])] ∧
      sessionLog 1 s₂.store.wal = [(0, some (refreshHash AuthHost.plain.toHost 1 0)), (2, none),
        (1, some (refreshHash AuthHost.plain.toHost 1 1000)),
        (3, some (refreshHash AuthHost.plain.toHost 1 2000))]))
    true 3 1 rfl rfl (by decide +kernel)
  obtain ⟨hlogout, hlength, hown, hlog⟩ := of_decide_eq_true hobs
  refine ⟨s₁, s₂, h₁, hlogout, h₂, hlength.le, rfl, ?_, hown⟩
  exact .issued (show 1 < s₁.threads.length by omega) (by simp [hlog, refreshHash])

end SideQuest
