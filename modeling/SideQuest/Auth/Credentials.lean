import SideQuest.Auth.Sessions

-- Who registers can log in with the same strings, exactly if the address is in the form
-- that the registration stores.

namespace SideQuest

open ReadCommitted AuthService

-- `@unique`
def World.UniqueEmails (w : World) : Prop := (w.users.rows.map User.email).Nodup

theorem World.userByEmail_of_mem {w : World} (h : w.UniqueEmails) {user : User}
    (hmem : user ∈ w.users.rows) : w.userByEmail user.email = some user := by
  let byEmail : Table User.email := ⟨w.users.rows, h⟩
  exact byEmail.find?_of_mem hmem

theorem World.email_of_userByEmail {w : World} {email : String} {user : User}
    (h : w.userByEmail email = some user) : user.email = email := by
  have hemail := List.find?_some h
  exact of_decide_eq_true hemail

-- The account is as it was, but for what has nothing to do with logging in.
structure Unchanged (before after : World) (id : Id) (user : User) : Prop where
  found : after.users.find? id = some user
  active : user.status = .ACTIVE
  email : (before.users.find? id).map User.email = some user.email
  password : (before.users.find? id).map User.passwordHash = some user.passwordHash

section

variable {host : AuthHost}

theorem tokensFor_inj (hhost : host.Lawful) {user user' : User} {now : Time}
    (h : tokensFor host.toHost user now = tokensFor host.toHost user' now) : user.id = user'.id :=
  (hhost.signRefresh_inj _ _ _ _ (congrArg AuthTokens.refreshToken h)).1

theorem login_iff_normalized (hhost : host.Lawful) {dto : RegisterDto} {ids : FreshIds}
    {w w' : World} {user : User}
    (hregister : ((register host.toHost dto ids).alone w).1.isOk = true)
    (hunchanged : Unchanged ((register host.toHost dto ids).alone w).2 w' ids.user user)
    (hunique : w'.UniqueEmails) :
    ((login host ⟨dto.email, dto.password⟩).alone w').1 =
        .ok (tokensFor host.toHost user w'.clock) ↔
      host.toLowerCase (host.trim dto.email) = dto.email := by
  have hid : user.id = ids.user := Table.key_of_find? hunchanged.found
  obtain ⟨hemail, hpassword⟩ : user.email = host.toLowerCase (host.trim dto.email) ∧
      user.passwordHash = host.argon2Hash dto.password := by
    rcases register_cases host.toHost dto ids w with ⟨herror, _⟩ | ⟨w₁, hregistered, halone⟩
    · rw [herror] at hregister
      cases hregister
    · obtain ⟨row, hrow, hemail, hpassword⟩ := hregistered.account
      have hafter := congrArg Prod.snd halone
      have hemail' := hunchanged.email
      have hpassword' := hunchanged.password
      rw [hafter, sessionWrite, World.find?_userUpdate, if_pos rfl, hrow] at hemail' hpassword'
      exact ⟨(Option.some.inj hemail').symm.trans hemail,
        (Option.some.inj hpassword').symm.trans hpassword⟩
  constructor
  · intro hlogin
    rcases login_cases host ⟨dto.email, dto.password⟩ w' with ⟨herror, _⟩ | ⟨owner, howns⟩
    · rw [hlogin] at herror
      cases herror
    · rw [login_alone howns] at hlogin
      have hsame := tokensFor_inj hhost (Except.ok.inj hlogin)
      have howner := howns.find?_user
      rw [hsame, hid, hunchanged.found] at howner
      rw [← hemail, Option.some.inj howner]
      exact World.email_of_userByEmail howns.found
  · intro hnormal
    have howns : Owns host w' ⟨dto.email, dto.password⟩ user := {
      found := by
        have hfound := World.userByEmail_of_mem hunique (Table.mem_of_find? hunchanged.found)
        rwa [hemail, hnormal] at hfound
      password := by
        rw [hpassword]
        exact (hhost.argon2Verify_iff _ _).mpr rfl
      active := hunchanged.active }
    rw [login_alone howns]

end

-- The world after a registration in an empty one.
def registered (dto : RegisterDto) : World :=
  ((register AuthHost.plain.toHost dto ⟨1, 1⟩).alone World.empty).2

def adaRow (email : String) : User where
  id := 1
  email := email
  username := "ada"
  passwordHash := "hash:CorrectHorse"
  refreshTokenHash := some (refreshHash AuthHost.plain.toHost 1 0)

theorem login_lower_case :
    ((login .plain ⟨"ada@example.com", "CorrectHorse"⟩).alone (registered (ada "ada@example.com"))).1 =
      .ok (tokensFor AuthHost.plain.toHost (adaRow "ada@example.com") 0) := by
  have hunchanged : Unchanged (registered (ada "ada@example.com")) (registered (ada "ada@example.com"))
      1 (adaRow "ada@example.com") := ⟨by decide +kernel, rfl, by decide +kernel, by decide +kernel⟩
  exact (login_iff_normalized AuthHost.plain_lawful (by decide +kernel) hunchanged
    (by unfold World.UniqueEmails; decide +kernel)).mpr (by decide +kernel)

-- Who registers with a capital letter is not found by it.
theorem no_login_upper_case :
    ((register AuthHost.plain.toHost (ada "Ada@example.com") ⟨1, 1⟩).alone World.empty).1.isOk = true ∧
      Unchanged (registered (ada "Ada@example.com")) (registered (ada "Ada@example.com")) 1
        (adaRow "ada@example.com") ∧
      ((login .plain ⟨"Ada@example.com", "CorrectHorse"⟩).alone
        (registered (ada "Ada@example.com"))).1.isOk = false := by
  refine ⟨by decide +kernel, ⟨by decide +kernel, rfl, by decide +kernel, by decide +kernel⟩, ?_⟩
  decide +kernel

end SideQuest
