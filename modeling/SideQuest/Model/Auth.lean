import SideQuest.Model.Invites

-- `AuthService.register`.

namespace SideQuest

namespace AuthService

structure RegisterDto where
  email : String
  username : String
  password : String
  displayName : Option String := none
  inviteToken : Option String := none

-- The CUIDs that a registration gives to the rows it creates.
structure FreshIds where
  user : Id
  friendship : Id

structure AuthTokens where
  accessToken : String
  refreshToken : String

def issueTokens (host : Host) (user : User) : Request AuthTokens := do
  let issuedAt ← prisma .now
  let accessToken :=
    host.signAccess ⟨user.id, user.email, user.username, user.role⟩ (issuedAt / 1000)
  let issuedAt ← prisma .now
  let refreshToken := host.signRefresh user.id (issuedAt / 1000)
  let _ ← prisma (.userUpdate user.id
    { refreshTokenHash := some (some (host.argon2Hash refreshToken)) })
  return ⟨accessToken, refreshToken⟩

-- The invite token of a registration, when there is one: an empty string is falsy.
def RegisterDto.token (host : Host) (dto : RegisterDto) : Option String :=
  (dto.inviteToken.map host.trim).filter fun token => token ≠ ""

def newUser (host : Host) (dto : RegisterDto) (id : Id) : User where
  id := id
  email := host.toLowerCase (host.trim dto.email)
  username := dto.username
  passwordHash := host.argon2Hash dto.password
  displayName := dto.displayName

-- The transaction of `register`.
def registerTx (host : Host) (dto : RegisterDto) (ids : FreshIds) :
    InTransaction (User × Option InvitesService.ReferralTxOutcome) := do
  let u ← tx (.userCreate (newUser host dto ids.user))
  match dto.token host with
  | some inviteToken =>
      let referral ←
        InvitesService.consumeReferralInviteTx host inviteToken u.id u.email ids.friendship
      return (u, some referral)
  | none => return (u, none)

def register (host : Host) (dto : RegisterDto) (ids : FreshIds) : Request AuthTokens := do
  let email := host.toLowerCase (host.trim dto.email)
  let emailExists ← prisma (.userFindByEmail email)
  Prog.require (emailExists.isNone = true) (.conflict "Email already registered")
  let usernameExists ← prisma (.userFindByUsername dto.username)
  Prog.require (usernameExists.isNone = true) (.conflict "Username already taken")
  let (user, referral) ← Prog.transaction (registerTx host dto ids)
  match referral with
  | some out => InvitesService.emitReferralCompleted out
  | none => pure ()
  issueTokens host user

end AuthService

end SideQuest
