import SideQuest.Model.Host

-- `InvitesService`: referral invites, from sending to redemption.

namespace SideQuest

namespace InvitesService

def REFERRAL_XP : ℤ := 50

def INVITE_EXPIRY_MS : ℤ := 30 * 86400000

def MAX_INVITES_PER_UTC_DAY : ℕ := 20

def normalizeEmail (host : Host) (email : String) : String := host.toLowerCase (host.trim email)

def startOfUtcDay (t : Time) : Time := t - t % 86400000

-- `id` and `token` are the CUID and the random token of the new invite.
def createInvite (host : Host) (inviterId : Id) (rawEmail : String) (id : Id) (token : String) :
    Request Invite := do
  let email := normalizeEmail host rawEmail
  Prog.require (email ≠ "") (.badRequest "Email is required")
  let inviter ← prisma (.userFindUnique inviterId)
  let inviter ← Prog.expect inviter (.forbidden "Inviter not found" (some "FORBIDDEN"))
  Prog.require (normalizeEmail host inviter.email ≠ email)
    (.badRequest "You cannot invite your own email")
  let existingUser ← prisma (.userFindByEmail email)
  Prog.require (existingUser.map User.status ≠ some .ACTIVE)
    (.conflict "An active account already uses this email" (some "USER_EXISTS"))
  let now ← prisma .now
  let sentToday ← prisma (.inviteCountSince inviterId (startOfUtcDay now))
  Prog.require (sentToday < MAX_INVITES_PER_UTC_DAY)
    (.tooManyRequests "Daily invite limit reached" "RATE_LIMITED")
  let _ ← prisma (.inviteCancelPending inviterId email)
  prisma (.inviteCreate id token email inviterId)

def cancel (inviterId inviteId : Id) : Request Unit := do
  let inv ← prisma (.inviteFindUnique inviteId)
  let inv ← Prog.expect inv (.notFound "Invite not found")
  Prog.require (inv.inviterId = inviterId)
    (.forbidden "Not allowed to cancel this invite" (some "FORBIDDEN"))
  Prog.require (inv.status = .PENDING) (.badRequest "Only pending invites can be cancelled")
  prisma (.inviteCancel inviteId)

structure InviteTokenPreview where
  valid : Bool
  expired : Bool
  inviterUsername : Option String := none
  invitedEmail : Option String := none
  deriving DecidableEq

def previewToken (token : String) : Request InviteTokenPreview := do
  let inv ← prisma (.inviteFindByToken token)
  match inv with
  | none => return { valid := false, expired := false }
  | some inv =>
      let now ← prisma .now
      let expired : Bool := now - inv.sentAt > INVITE_EXPIRY_MS
      if inv.status ≠ .PENDING then return { valid := false, expired := false }
      else if expired then return { valid := false, expired := true }
      else
        let inviter ← prisma (.userFindUnique inv.inviterId)
        return {
          valid := true
          expired := false
          inviterUsername := inviter.map User.username
          invitedEmail := some inv.email }

structure ReferralTxOutcome where
  friendshipId : Id
  inviterId : Id
  inviteeId : Id
  inviterPrevLevel : ℕ
  inviterNewLevel : ℕ
  inviteePrevLevel : ℕ
  inviteeNewLevel : ℕ

def referralFriendship (inviterId inviteeId newId : Id) (now : Time) : Friendship where
  id := newId
  requesterId := inviterId
  addresseeId := inviteeId
  status := .ACCEPTED
  respondedAt := some now
  createdAt := now

-- The friendship between inviter and invitee: the one there is, or a new accepted one
-- with the CUID `newId`.
def befriend (inviterId inviteeId newId : Id) : InTransaction Id := do
  let existing ← tx (.friendshipFindBetween inviterId inviteeId)
  match existing with
  | some existing => return existing.id
  | none =>
      let now ← tx .now
      let f ← tx (.friendshipCreate (referralFriendship inviterId inviteeId newId now))
      return f.id

-- The new totals of a user, from the row that was read.
def referralData (before : User) : UserUpdate where
  xp := .set (before.xp + REFERRAL_XP)
  level := some (levelFromXp (before.xp + REFERRAL_XP))

-- The referral bonus of both sides, written as absolute totals.
def awardReferral (friendshipId inviterId inviteeId : Id) : InTransaction ReferralTxOutcome := do
  let inviterBefore ← tx (.userFindUnique inviterId)
  let inviteeBefore ← tx (.userFindUnique inviteeId)
  let missing : ApiError := .badRequest "User not found for referral bonus"
  let inviterBefore ← Tx.expect inviterBefore missing
  let inviteeBefore ← Tx.expect inviteeBefore missing
  let _ ← tx (.userUpdate inviterId (referralData inviterBefore))
  let _ ← tx (.userUpdate inviteeId (referralData inviteeBefore))
  return ⟨friendshipId, inviterId, inviteeId,
    inviterBefore.level, levelFromXp (inviterBefore.xp + REFERRAL_XP),
    inviteeBefore.level, levelFromXp (inviteeBefore.xp + REFERRAL_XP)⟩

def consumeReferralInviteTx (host : Host) (token : String) (inviteeId : Id)
    (inviteeEmail : String) (newFriendshipId : Id) : InTransaction ReferralTxOutcome := do
  let emailNorm := normalizeEmail host inviteeEmail
  let invite ← tx (.inviteFindByToken token)
  let invite ← Tx.expect invite (.badRequest "Invalid invite token")
  Tx.require (invite.status = .PENDING) (.badRequest "Invite is no longer valid")
  let now ← tx .now
  Tx.require (now - invite.sentAt ≤ INVITE_EXPIRY_MS) (.badRequest "Invite has expired")
  Tx.require (normalizeEmail host invite.email = emailNorm)
    (.badRequest "Registration email must match the invite")
  Tx.require (invite.inviterId ≠ inviteeId) (.badRequest "Invalid invite")
  let acceptedAt ← tx .now
  let claimed ← tx (.inviteClaim invite.id token inviteeId acceptedAt)
  Tx.require (claimed = 1) (.conflict "Invite was already used")
  let friendshipId ← befriend invite.inviterId inviteeId newFriendshipId
  awardReferral friendshipId invite.inviterId inviteeId

def emitReferralCompleted (out : ReferralTxOutcome) : Request Unit := do
  emit (.friendRequestAccepted out.inviterId out.inviteeId out.friendshipId)
  Prog.when (out.inviterNewLevel > out.inviterPrevLevel)
    (emit (.levelUp out.inviterId out.inviterPrevLevel out.inviterNewLevel))
  Prog.when (out.inviteeNewLevel > out.inviteePrevLevel)
    (emit (.levelUp out.inviteeId out.inviteePrevLevel out.inviteeNewLevel))

end InvitesService

end SideQuest
