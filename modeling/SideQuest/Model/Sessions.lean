import SideQuest.Model.Auth

-- `AuthService` once an account exists, and the two other places that accept an access
-- token: `JwtStrategy` and `NotificationsGateway`.

namespace SideQuest

-- The claims of a verified token that the code looks for. A claim of another type than
-- the string it asks for is as good as none.
structure JwtClaims where
  sub : Option Id := none
  email : Option String := none
  username : Option String := none
  role : Option String := none
  tokenType : Option String := none

-- A host that can also check. Verification takes the time in seconds, and answers none
-- for a signature of another secret and after the token has expired.
structure AuthHost extends Host where
  argon2Verify : String → String → Bool
  verifyAccess : String → ℤ → Option JwtClaims
  verifyRefresh : String → ℤ → Option JwtClaims

-- What the packages promise.
structure AuthHost.Lawful (host : AuthHost) : Prop where
  argon2Verify_iff : ∀ password guess,
    host.argon2Verify (host.argon2Hash password) guess = true ↔ guess = password
  signAccess_sub : ∀ payload payload' iat iat',
    host.signAccess payload iat = host.signAccess payload' iat' → payload.sub = payload'.sub
  signRefresh_inj : ∀ id id' iat iat',
    host.signRefresh id iat = host.signRefresh id' iat' → id = id' ∧ iat = iat'
  verifyRefresh_sign : ∀ id iat now claims,
    host.verifyRefresh (host.signRefresh id iat) now = some claims →
      claims.sub = some id ∧ claims.tokenType = some "refresh"

-- The payload of an access token with its claims checked to be strings.
structure JwtAccessPayload where
  sub : Id
  email : String
  username : String
  role : String

def isJwtAccessPayload (value : JwtClaims) : Option JwtAccessPayload := do
  return ⟨← value.sub, ← value.email, ← value.username, ← value.role⟩

-- `authorization.slice(7)`
def slice7 (s : String) : String := String.ofList (s.toList.drop 7)

namespace AuthService

structure LoginDto where
  email : String
  password : String

structure JwtRefreshPayload where
  sub : Id
  deriving DecidableEq

def isRefreshPayload (value : JwtClaims) : Option JwtRefreshPayload := do
  let sub ← value.sub
  if value.tokenType = some "refresh" then return ⟨sub⟩ else none

def verifyRefreshToken (host : AuthHost) (token : String) : Request JwtRefreshPayload := do
  let now ← prisma .now
  Prog.expect ((host.verifyRefresh token (now / 1000)).bind isRefreshPayload)
    (.unauthorized "Invalid refresh token")

-- `UsersService.recordLogin`
def recordLogin (id : Id) : Request Unit := do
  let now ← prisma .now
  let _ ← prisma (.userUpdate id { lastLoginAt := some now })
  return ()

def login (host : AuthHost) (dto : LoginDto) : Request AuthTokens := do
  let user ← prisma (.userFindByEmail dto.email)
  let user ← Prog.expect user (.unauthorized "Invalid credentials")
  Prog.require (host.argon2Verify user.passwordHash dto.password = true)
    (.unauthorized "Invalid credentials")
  Prog.require (user.status = .ACTIVE) (.unauthorized "Account not active")
  recordLogin user.id
  issueTokens host.toHost user

def logout (userId : Id) : Request Unit := do
  let _ ← prisma (.userUpdate userId { refreshTokenHash := some none })
  return ()

def refresh (host : AuthHost) (refreshToken : String) : Request AuthTokens := do
  let payload ← verifyRefreshToken host refreshToken
  let user ← prisma (.userFindUnique payload.sub)
  let user ← Prog.expect user (.unauthorized "Refresh token revoked")
  let refreshTokenHash ← Prog.expect (user.refreshTokenHash.filter fun hash => hash ≠ "")
    (.unauthorized "Refresh token revoked")
  Prog.require (host.argon2Verify refreshTokenHash refreshToken = true)
    (.unauthorized "Refresh token revoked")
  issueTokens host.toHost user

-- The token of an `Authorization: Bearer …` header.
def bearerToken (host : AuthHost) (authorization : Option String) : Option String := do
  let header ← authorization
  if header.startsWith "Bearer " ∧ 8 ≤ header.length then
    let token := host.trim (slice7 header)
    if token = "" then none else return token
  else none

def tryResolveViewerUserId (host : AuthHost) (authorization : Option String) :
    Request (Option Id) := do
  match bearerToken host authorization with
  | none => return none
  | some token =>
      let now ← prisma .now
      match (host.verifyAccess token (now / 1000)).bind isJwtAccessPayload with
      | none => return none
      | some decoded =>
          let user ← prisma (.userFindUnique decoded.sub)
          return (user.filter fun u => u.status = .ACTIVE).map User.id

end AuthService

namespace JwtStrategy

-- `toAppRole` gives each role the name it has.
structure AuthenticatedUser where
  id : Id
  email : String
  username : String
  role : UserRole

def validate (payload : JwtClaims) : Request AuthenticatedUser := do
  let payload ← Prog.expect (isJwtAccessPayload payload) (.unauthorized "Malformed token payload")
  let user ← prisma (.userFindUnique payload.sub)
  let user ← Prog.expect (user.filter fun u => u.status = .ACTIVE) (.unauthorized "User not active")
  return ⟨user.id, user.email, user.username, user.role⟩

end JwtStrategy

namespace NotificationsGateway

-- What a client sends along when it connects: `auth.token` and the header, when strings.
structure Handshake where
  token : Option String := none
  authorization : Option String := none

def extractToken (host : AuthHost) (client : Handshake) : Option String :=
  (client.token.filter fun token => token ≠ "") <|>
    (client.authorization.filter fun header => (host.toLowerCase header).startsWith "bearer ").map
      slice7

def toSocketAuthPayload (value : JwtClaims) : Option Id := value.sub

-- The user whose room the socket joins. A socket without one is disconnected.
def handleConnection (host : AuthHost) (client : Handshake) : Request (Option Id) := do
  match (extractToken host client).filter fun token => token ≠ "" with
  | none => return none
  | some token =>
      let now ← prisma .now
      return (host.verifyAccess token (now / 1000)).bind toSocketAuthPayload

end NotificationsGateway

-- A host to run schedules on. A token spells out its user and its time of issue.
namespace PlainToken

def sign (kind : Char) (id : Id) (iat : ℤ) : String :=
  String.ofList (kind :: List.replicate id 'u' ++
    (if 0 ≤ iat then '+' else '-') :: List.replicate iat.natAbs 's')

def sub (token : String) : Id := token.toList.count 'u'

-- The subject of an unexpired token of this kind.
def verify (kind : Char) (lifetime : ℤ) (token : String) (now : ℤ) : Option Id :=
  let iat : ℤ := token.toList.count 's'
  if token = sign kind (sub token) iat ∧ now < iat + lifetime then some (sub token) else none

end PlainToken

def AuthHost.plain : AuthHost where
  toHost := { Host.plain with
    toLowerCase := fun s => String.ofList (s.toList.map Char.toLower)
    signAccess := fun payload iat => PlainToken.sign 'a' payload.sub iat
    signRefresh := PlainToken.sign 'r' }
  argon2Verify hash password := hash = "hash:" ++ password
  verifyAccess token now := (PlainToken.verify 'a' 900 token now).map fun sub =>
    { sub := some sub, email := some "", username := some "", role := some "USER" }
  verifyRefresh token now := (PlainToken.verify 'r' 604800 token now).map fun sub =>
    { sub := some sub, tokenType := some "refresh" }

end SideQuest
