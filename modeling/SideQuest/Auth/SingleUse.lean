import SideQuest.Auth.Sessions

-- A refresh token is exchanged once, unless it is exchanged in the second of its issue.

namespace SideQuest

open ReadCommitted AuthService

inductive AuthCall where
  | register (dto : RegisterDto) (ids : FreshIds)
  | login (dto : LoginDto)
  | refresh (refreshToken : String)
  | logout (userId : Id)
  | wait (elapsed : ℕ)

def AuthCall.after (host : AuthHost) : AuthCall → World → World
  | .register dto ids, w => ((AuthService.register host.toHost dto ids).alone w).2
  | .login dto, w => ((AuthService.login host dto).alone w).2
  | .refresh refreshToken, w => ((AuthService.refresh host refreshToken).alone w).2
  | .logout userId, w => ((AuthService.logout userId).alone w).2
  | .wait elapsed, w => Backend.happen Stmt elapsed w

-- A token that the user may exchange was issued in the second `from` or later.
structure IssuedSince (host : AuthHost) (userId : Id) (since : ℤ) (w : World) : Prop where
  clock : since ≤ w.clock / 1000
  session : ∀ hash, w.sessionOf userId = some hash → ∃ iat, since ≤ iat ∧ iat ≤ w.clock / 1000 ∧
    hash = host.argon2Hash (host.signRefresh userId iat)

section Steps

variable {host : AuthHost} {userId : Id} {since : ℤ} {w w' : World}

theorem IssuedSince.of_same (h : IssuedSince host userId since w) (hclock : w.clock ≤ w'.clock)
    (hsession : w'.sessionOf userId = w.sessionOf userId) : IssuedSince host userId since w' := by
  have hseconds : w.clock / 1000 ≤ w'.clock / 1000 := Int.ediv_le_ediv (by decide) hclock
  refine ⟨h.clock.trans hseconds, fun hash hhash => ?_⟩
  obtain ⟨iat, hsince, hiat, heq⟩ := h.session hash (hsession ▸ hhash)
  exact ⟨iat, hsince, hiat.trans hseconds, heq⟩

theorem issuedSince_signIn (hfound : (w.users.find? userId).isSome) :
    IssuedSince host userId (w.clock / 1000)
      (w.apply (sessionWrite userId (some (refreshHash host.toHost userId w.clock)))) where
  clock := le_rfl
  session hash hhash := by
    rw [sessionOf_sessionWrite hfound, if_pos rfl] at hhash
    exact ⟨w.clock / 1000, le_rfl, le_rfl, (Option.some.inj hhash).symm⟩

-- A new session is issued now.
theorem IssuedSince.signIn (h : IssuedSince host userId since w) {u : Id}
    (hfound : (w.users.find? u).isSome) : IssuedSince host userId since
      (w.apply (sessionWrite u (some (refreshHash host.toHost u w.clock)))) where
  clock := h.clock
  session hash hhash := by
    rw [sessionOf_sessionWrite hfound] at hhash
    split at hhash
    · rename_i hu
      refine ⟨w.clock / 1000, h.clock, le_rfl, ?_⟩
      rw [← Option.some.inj hhash, hu]
      rfl
    · exact h.session hash hhash

theorem IssuedSince.signOut (h : IssuedSince host userId since w) {u : Id}
    (hfound : (w.users.find? u).isSome) :
    IssuedSince host userId since (w.apply (sessionWrite u none)) where
  clock := h.clock
  session hash hhash := by
    rw [sessionOf_sessionWrite hfound] at hhash
    split at hhash
    · cases hhash
    · exact h.session hash hhash

theorem IssuedSince.after (h : IssuedSince host userId since w) (call : AuthCall) :
    IssuedSince host userId since (call.after host w) := by
  cases call with
  | register dto ids =>
      rw [AuthCall.after]
      rcases register_cases host.toHost dto ids w with ⟨_, hsame⟩ | ⟨w', hregistered, halone⟩
      · rwa [hsame]
      · obtain ⟨row, hrow, _⟩ := hregistered.account
        have h' := h.of_same hregistered.clock.ge (hregistered.sessions userId)
        rw [halone, ← hregistered.clock]
        exact h'.signIn (Option.isSome_of_eq_some hrow)
  | login dto =>
      rw [AuthCall.after]
      rcases login_cases host dto w with ⟨_, hsame⟩ | ⟨user, howns⟩
      · rwa [hsame]
      · have hfound : (w.users.find? user.id).isSome :=
          Option.isSome_of_eq_some howns.find?_user
        have h' : IssuedSince host userId since (w.apply (.userUpdate user.id
          { lastLoginAt := some w.clock })) := h.of_same le_rfl (sessionOf_userUpdate _ rfl userId)
        rw [login_alone howns]
        exact h'.signIn (by rwa [isSome_userUpdate])
  | refresh refreshToken =>
      rw [AuthCall.after]
      rcases refresh_cases host refreshToken w with ⟨_, hsame⟩ | ⟨user, hholds⟩
      · rwa [hsame]
      · rw [refresh_alone hholds]
        exact h.signIn (Option.isSome_of_eq_some hholds.found)
  | logout u =>
      rw [AuthCall.after]
      rcases logout_cases u w with hsame | ⟨hfound, hout⟩
      · rwa [hsame]
      · rw [hout]
        exact h.signOut hfound
  | wait elapsed => exact h.of_same (Int.le_add_of_nonneg_right (Int.natCast_nonneg elapsed)) rfl

theorem IssuedSince.oneByOne (h : IssuedSince host userId since w) (calls : List AuthCall) :
    IssuedSince host userId since (oneByOne (AuthCall.after host) calls w) := by
  have hany : EachMeets (AuthCall.after host) (fun _ _ => True) calls w :=
    eachMeets_of_forall (fun _ _ => trivial) calls w
  exact oneByOne_inv (fun call _ _ hdb _ => hdb.after call) h hany

-- The token that a user holds is the one of his session.
theorem IssuedSince.token (h : IssuedSince host userId since w) (hhost : host.Lawful)
    {token : String} {user : User} (hholds : Holds host w token user) (hid : user.id = userId) :
    ∃ iat, since ≤ iat ∧ iat ≤ w.clock / 1000 ∧ token = host.signRefresh userId iat ∧
      user.refreshTokenHash = some (host.argon2Hash token) := by
  obtain ⟨hash, hhash, _, hverify⟩ := hholds.hash
  have hsession : w.sessionOf userId = some hash := by
    rw [World.sessionOf, ← hid, hholds.found]
    exact hhash
  obtain ⟨iat, hsince, hiat, rfl⟩ := h.session hash hsession
  have htoken := (hhost.argon2Verify_iff _ _).mp hverify
  exact ⟨iat, hsince, hiat, htoken, by rw [hhash, htoken]⟩

end Steps

section

variable {host : AuthHost}

-- The exchange of a token in the second of its issue stores the hash of the same token.
theorem holds_again (hhost : host.Lawful) {w : World} {since : ℤ} {token : String} {user : User}
    (h : Holds host w token user) (hsince : IssuedSince host user.id since w)
    (htoken : token = host.signRefresh user.id (w.clock / 1000)) :
    ∃ user', Holds host ((AuthCall.refresh token).after host w) token user' := by
  obtain ⟨_, _, _, _, hstored⟩ := hsince.token hhost h rfl
  obtain ⟨hash, hhash, hne, hverify⟩ := h.hash
  rw [Option.some.inj (hhash.symm.trans hstored)] at hne hverify
  rw [AuthCall.after, refresh_alone h, refreshHash, ← htoken]
  refine ⟨UserUpdate.apply { refreshTokenHash := some (some (host.argon2Hash token)) } user,
    h.payload, ?_, host.argon2Hash token, rfl, hne, hverify⟩
  exact (World.find?_userUpdate _ _ _ _).trans
    ((if_pos rfl).trans (congrArg (Option.map (UserUpdate.apply _)) h.found))

-- The token that a successful `refresh` has exchanged is never accepted again, exactly if
-- it was issued before the second of the exchange.
theorem singleUse_iff_earlierSecond (hhost : host.Lawful) {w : World}
    (hw : ∀ u, ∃ since, IssuedSince host u since w) (before : List AuthCall) {token : String}
    (hexchange : ((refresh host token).alone
      (oneByOne (AuthCall.after host) before w)).1.isOk = true) :
    (∀ later, ((refresh host token).alone (oneByOne (AuthCall.after host)
        (before ++ .refresh token :: later) w)).1.isOk = false) ↔
      ∀ u, token ≠ host.signRefresh u ((oneByOne (AuthCall.after host) before w).clock / 1000) := by
  have hsplit (later : List AuthCall) : oneByOne (AuthCall.after host)
      (before ++ .refresh token :: later) w = oneByOne (AuthCall.after host) later
        ((AuthCall.refresh token).after host (oneByOne (AuthCall.after host) before w)) :=
    List.foldl_append
  simp only [hsplit]
  have hissued (u : Id) : ∃ since, IssuedSince host u since (oneByOne (AuthCall.after host) before w) :=
    let ⟨since, h⟩ := hw u
    ⟨since, h.oneByOne before⟩
  revert hissued hexchange
  generalize oneByOne (AuthCall.after host) before w = w₁
  intro hexchange hissued
  rcases refresh_cases host token w₁ with ⟨herror, _⟩ | ⟨user, hholds⟩
  · rw [herror] at hexchange
    cases hexchange
  · obtain ⟨since, hsince⟩ := hissued user.id
    obtain ⟨iat, _, hiat, htoken, _⟩ := hsince.token hhost hholds rfl
    constructor
    · rintro hrejected u rfl
      have huser := sub_of_signRefresh hhost hholds.payload
      obtain ⟨user', hagain⟩ := holds_again hhost hholds hsince (by rw [huser])
      have herror := hrejected []
      rw [oneByOne, List.foldl_nil, refresh_alone hagain] at herror
      cases herror
    · intro hearlier later
      by_contra haccepted
      rcases refresh_cases host token (oneByOne (AuthCall.after host) later
        ((AuthCall.refresh token).after host w₁)) with ⟨herror, _⟩ | ⟨user', hlater⟩
      · exact haccepted herror
      · -- from the exchange on, the user's session was issued in its second or later
        have hnow : IssuedSince host user.id (w₁.clock / 1000)
            ((AuthCall.refresh token).after host w₁) := by
          rw [AuthCall.after, refresh_alone hholds]
          exact issuedSince_signIn (Option.isSome_of_eq_some hholds.found)
        have huser : user'.id = user.id := sub_of_signRefresh hhost (htoken ▸ hlater.payload)
        obtain ⟨iat', hfrom, _, htoken', _⟩ := (hnow.oneByOne later).token hhost hlater huser
        have hsame := (hhost.signRefresh_inj _ _ _ _ (htoken.symm.trans htoken')).2
        refine hearlier user.id ?_
        rw [htoken, le_antisymm hiat (hsame ▸ hfrom)]

end

-- Nobody is signed in yet.
theorem issuedSince_empty (u : Id) : ∃ since, IssuedSince .plain u since World.empty :=
  ⟨0, le_rfl, fun _ h => by cases h⟩

def adaRegisters : AuthCall := .register (ada "ada@example.com") ⟨1, 1⟩

-- The token of the registration, exchanged a second later and presented again after a login.
theorem single_use_next_second :
    ((refresh .plain (AuthHost.plain.signRefresh 1 0)).alone (oneByOne (AuthCall.after .plain)
      ([adaRegisters, .wait 1000] ++ .refresh (AuthHost.plain.signRefresh 1 0) ::
        [.login ⟨"ada@example.com", "CorrectHorse"⟩, .wait 500]) World.empty)).1.isOk = false := by
  have hclock : (oneByOne (AuthCall.after .plain) [adaRegisters, .wait 1000] World.empty).clock / 1000 =
      1 := by decide +kernel
  refine (singleUse_iff_earlierSecond AuthHost.plain_lawful issuedSince_empty
    [adaRegisters, .wait 1000] (by decide +kernel)).mpr (fun u h => ?_) _
  rw [hclock] at h
  exact absurd (AuthHost.plain_lawful.signRefresh_inj _ _ _ _ h).2 (by decide)

-- Exchanged in the second of the registration, it stays the current token.
theorem used_twice_same_second :
    ((refresh .plain (AuthHost.plain.signRefresh 1 0)).alone
        (oneByOne (AuthCall.after .plain) [adaRegisters] World.empty)).1.isOk = true ∧
      ((refresh .plain (AuthHost.plain.signRefresh 1 0)).alone
        (oneByOne (AuthCall.after .plain)
          [adaRegisters, .refresh (AuthHost.plain.signRefresh 1 0)] World.empty)).1.isOk = true := by
  decide +kernel

end SideQuest
