import SideQuest.Auth.Sessions

-- The requests that write sessions, by what each of them may commit.

namespace SideQuest

open ReadCommitted

namespace AuthService

variable {R : Rules Stmt} {me : ℕ} {host : AuthHost} {s : Store World Write}

-- The write of a token signed for the user.
def signWrite (host : Host) (userId : Id) (iat : ℤ) : Write :=
  sessionWrite userId (some (host.argon2Hash (host.signRefresh userId iat)))

theorem wp_login {dto : LoginDto}
    (hrecord : ∀ s' id now, R.inv s' → (s'.db.users.find? id).isSome →
      R.Commits me s' [.userUpdate id { lastLoginAt := some now }])
    (hsign : ∀ s' id iat, R.inv s' → (s'.db.users.find? id).isSome →
      R.Commits me s' [signWrite host.toHost id iat]) :
    R.wp me (fun _ _ => True) (login host dto) s := by
  unfold login
  refine Rules.wp_query (fun _ => rfl) fun s₁ h₁ => ?_
  refine Rules.wp_expect fun user huser => ?_
  refine Rules.wp_require fun _ => ?_
  refine Rules.wp_require fun _ => ?_
  unfold recordLogin
  rw [Prog.bind_assoc]
  refine Rules.wp_query (fun _ => rfl) fun s₂ h₂ => ?_
  rw [Prog.bind_assoc]
  refine Rules.wp_call fun s₃ h₃ _ _ _ he => ?_
  obtain ⟨row, hrow, _, rfl⟩ := exec_userUpdate he
  refine ⟨hrecord s₃ _ _ (R.rely_inv h₃) (Option.isSome_of_eq_some hrow), ?_⟩
  exact wp_issueTokens_signs fun s' iat hr hfound => hsign s' _ iat (R.rely_inv hr) hfound

theorem wp_logout {userId : Id} (hout : ∀ s', R.inv s' → (s'.db.users.find? userId).isSome →
    R.Commits me s' [sessionWrite userId none]) :
    R.wp me (fun _ _ => True) (logout userId) s := by
  unfold logout
  refine Rules.wp_call fun s₁ h₁ _ _ _ he => ?_
  obtain ⟨row, hrow, _, rfl⟩ := exec_userUpdate he
  exact ⟨hout s₁ (R.rely_inv h₁) (Option.isSome_of_eq_some hrow), fun _ _ => trivial⟩

-- A refresh token that was accepted, on the data that was read.
structure Accepted (host : AuthHost) (token : String) (w : World) (user : User) : Prop where
  payload : ∃ now, (host.verifyRefresh token now).bind isRefreshPayload = some ⟨user.id⟩
  found : w.users.find? user.id = some user
  hash : ∃ hash, user.refreshTokenHash = some hash ∧ host.argon2Verify hash token = true

theorem wp_refresh {token : String}
    (hsign : ∀ s₁ s' user iat, R.rely me [] s s₁ → Accepted host token s₁.db user →
      R.rely me [] s₁ s' → (s'.db.users.find? user.id).isSome →
        R.Commits me s' [signWrite host.toHost user.id iat]) :
    R.wp me (fun _ _ => True) (refresh host token) s := by
  unfold refresh verifyRefreshToken
  rw [Prog.bind_assoc]
  refine Rules.wp_query (fun _ => rfl) fun s₁ h₁ => ?_
  refine Rules.wp_expect fun payload hpayload => ?_
  refine Rules.wp_query (fun _ => rfl) fun s₂ h₂ => ?_
  refine Rules.wp_expect fun user huser => ?_
  refine Rules.wp_expect fun hash hhash => ?_
  refine Rules.wp_require fun hverify => ?_
  have hid : user.id = payload.sub := Table.key_of_find? huser
  have haccepted : Accepted host token s₂.db user := {
    payload := ⟨_, by rw [hpayload, hid]⟩
    found := by rwa [hid]
    hash := ⟨hash, (Option.filter_eq_some_iff.mp hhash).1, hverify⟩ }
  exact wp_issueTokens_signs fun s' iat hr hfound =>
    hsign s₂ s' user iat (R.rely_trans h₁ h₂) haccepted hr hfound

end AuthService

end SideQuest
