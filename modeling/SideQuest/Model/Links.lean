import SideQuest.Lib.Percent
import SideQuest.Model.Invites

-- The registration links that the services hand out. Texts are without lone surrogates, on
-- which `encodeURIComponent` throws.

namespace SideQuest

-- What `encodeURIComponent` leaves as it is.
def unreserved (c : Char) : Bool :=
  c.isAlphanum ∨ c ∈ ['-', '_', '.', '!', '~', '*', '\'', '(', ')']

def encodeURIComponent (text : String) : String :=
  String.ofList (Percent.encode unreserved text.toList)

-- `base.replace(/\/$/, '')`
def withoutSlash (base : String) : String :=
  if base.toList.getLast? = some '/' then String.ofList base.toList.dropLast else base

-- `${base}/register?${parameter}=${encodeURIComponent(text)}`
def buildRegisterLink (frontendBaseUrl parameter text : String) : String :=
  withoutSlash frontendBaseUrl ++ "/register?" ++ parameter ++ "=" ++ encodeURIComponent text

def buildPersonalRegisterRefLink (frontendBaseUrl username : String) : String :=
  buildRegisterLink frontendBaseUrl "ref" username

def buildInviteTokenRegisterLink (frontendBaseUrl token : String) : String :=
  buildRegisterLink frontendBaseUrl "invite" token

-- `config.get('app.frontendUrl') ?? 'http://localhost:5173'`
def frontendUrl (config : Option String) : String := config.getD "http://localhost:5173"

namespace InvitesService

structure InviteCreatedDto where
  id : Id
  email : String
  inviteLink : String

-- What `createInvite` answers for the new row.
def toInviteCreated (config : Option String) (invite : Invite) : InviteCreatedDto where
  id := invite.id
  email := invite.email
  inviteLink := buildInviteTokenRegisterLink (frontendUrl config) invite.token

def buildPersonalInviteLink (config : Option String) (username : String) : String :=
  buildPersonalRegisterRefLink (frontendUrl config) username

end InvitesService

namespace UsersService

-- The `inviteLink` of `toUserDto`.
def userInviteLink (config : Option String) (user : User) : String :=
  buildPersonalRegisterRefLink (frontendUrl config) user.username

end UsersService

end SideQuest
