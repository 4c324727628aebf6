import SideQuest.Lib.Refusals
import SideQuest.Achievements.RunToEnd
import SideQuest.Quests.Requests
import SideQuest.Auth.Requests
import SideQuest.Friendships.Block

-- Refused requests: one that the code ends with an error has committed nothing, whatever the
-- others did meanwhile. Only a `block` leaves its new row behind, when the other user removes
-- it in between, and a `createInvite` its cancellations of the inviter's own invites, when it
-- draws a token in use.

namespace SideQuest

open ReadCommitted QuestsService AchievementsService InvitesService AuthService FriendshipsService

-- What a refused request may have left behind.
def nothing : World → Write → Bool := fun _ _ => false

-- Of invites of the inviter.
def cancellations (inviterId : Id) (w : World) : Write → Bool
  | .inviteUpdate id d =>
      d = { status := .CANCELLED } ∧ (w.invites.find? id).any fun i => i.inviterId = inviterId
  | _ => false

def pendingRow (userId otherUserId : Id) (_ : World) : Write → Bool
  | .friendshipCreate row =>
      row.requesterId = userId ∧ row.addresseeId = otherUserId ∧ row.status = .PENDING
  | _ => false

-- The requests of the users, each with what it may leave behind.
inductive UserRequest (host : AuthHost) : (World → Write → Bool) → Request Unit → Prop where
  | quest {userId questId : Id} {p : Request Unit}
      (h : QuestRequest host.toHost userId questId p) : UserRequest host nothing p
  | register (dto : RegisterDto) (ids : FreshIds) :
      UserRequest host nothing (register host.toHost dto ids).void
  | login (dto : LoginDto) : UserRequest host nothing (login host dto).void
  | refresh (refreshToken : String) : UserRequest host nothing (refresh host refreshToken).void
  | logout (userId : Id) : UserRequest host nothing (logout userId)
  | createInvite (inviterId : Id) (rawEmail : String) (id : Id) (token : String) :
      UserRequest host (cancellations inviterId)
        (createInvite host.toHost inviterId rawEmail id token).void
  | cancel (inviterId inviteId : Id) : UserRequest host nothing (cancel inviterId inviteId)
  | request (requesterId addresseeId newId : Id) :
      UserRequest host nothing (request requesterId addresseeId newId).void
  | accept (userId friendshipId : Id) : UserRequest host nothing (accept userId friendshipId).void
  | block (userId otherUserId newId : Id) :
      UserRequest host (pendingRow userId otherUserId) (block userId otherUserId newId).void
  | remove (userId friendshipId : Id) : UserRequest host nothing (remove userId friendshipId)

-- Users and invites stay, and an invite stays its inviter's.
structure Kept (w w' : World) : Prop extends Grown w w' where
  invites : ∀ id, ∀ i ∈ w.invites.find? id, ∃ i' ∈ w'.invites.find? id, i'.inviterId = i.inviterId

theorem kept : Growth Stmt Kept where
  refl w := ⟨growth.refl w, fun _ i hi => ⟨i, hi, rfl⟩⟩
  trans h h' := by
    refine ⟨growth.trans h.toGrown h'.toGrown, fun id i hi => ?_⟩
    obtain ⟨i', hi', hsame⟩ := h.invites id i hi
    obtain ⟨i'', hi'', hsame'⟩ := h'.invites id i' hi'
    exact ⟨i'', hi'', hsame'.trans hsame⟩
  apply w wr := by
    refine ⟨growth.apply w wr, fun id i hi => ?_⟩
    cases wr with
    | inviteCreate row => exact ⟨i, Table.find?_insert_of_some hi row, rfl⟩
    | inviteUpdate id' d =>
        have hmodify : (w.apply (.inviteUpdate id' d)).invites.find? id =
            if id = id' then (w.invites.find? id).map d.apply else w.invites.find? id :=
          Table.find?_modify _ _ _ d.id_apply _
        rw [Option.mem_def.mp hi] at hmodify
        show ∃ i' ∈ (w.apply (.inviteUpdate id' d)).invites.find? id, i'.inviterId = i.inviterId
        rw [hmodify]
        split
        · exact ⟨d.apply i, rfl, rfl⟩
        · exact ⟨i, rfl, rfl⟩
    | _ => exact ⟨i, hi, rfl⟩
  happen w a := ⟨growth.happen w a, fun _ i hi => ⟨i, hi, rfl⟩⟩

-- A refused request leaves no other write than these.
abbrev Timely {α : Type} (left : World → Write → Bool) (done : Bool) (p : Request α) (w : World) :
    Prop := InTime Kept (fun w wr => !left w wr) (fun _ _ _ => True) done p w

section Requests

variable {α : Type} {left : World → Write → Bool} {done : Bool} {w : World}

theorem timely_pure (a : α) : Timely left done (Prog.pure a : Request α) w := fun _ _ => trivial

-- The bus takes every event.
theorem timely_emit {event : AppEvent} {f : Unit → Request α}
    (h : ∀ done' w', Kept w w' → Timely left done' (f ()) w') :
    Timely left done (emit event >>= f) w := by
  refine inTime_must (fun _ _ => rfl) fun w' hw done' _ ws he => ?_
  cases exec_emit he
  exact h done' _ (kept.trans hw (kept.view w' _))

theorem timely_when_emit {c : Prop} [Decidable c] {event : AppEvent} {f : Unit → Request α}
    (h : ∀ done' w', Kept w w' → Timely left done' (f ()) w') :
    Timely left done (Prog.when c (emit event) >>= f) w := by
  unfold Prog.when
  split
  · exact timely_emit h
  · exact h done w (kept.refl w)

-- A statement after which nothing lasting is left to do.
theorem timely_last {β : Type} {st : Stmt β} {f : β → Request α}
    (h : ∀ done' b w', Timely left done' (f b) w') : Timely left false (Prog.call st >>= f) w :=
  inTime_call fun _ _ b _ _ => h _ b _

theorem timely_start (userId questId : Id) : Timely left false (start userId questId) w := by
  unfold start
  refine inTime_query (fun _ => rfl) fun _ _ => ?_
  refine inTime_expect fun quest _ => ?_
  refine inTime_require fun _ => ?_
  refine inTime_query (fun _ => rfl) fun _ _ => ?_
  exact timely_last fun _ _ _ => timely_emit (f := .pure) fun _ _ _ => timely_pure ()

theorem timely_complete (host : Host) (userId questId : Id) (proof : Option CompletionProof) :
    Timely left false (complete host userId questId proof) w := by
  unfold complete
  refine inTime_query (fun _ => rfl) fun _ _ => ?_
  refine inTime_expect fun quest _ => ?_
  refine inTime_query (fun _ => rfl) fun _ _ => ?_
  refine inTime_expect fun active _ => ?_
  refine inTime_require fun _ => ?_
  refine inTime_transaction (txEnds_of_append fun _ fin _ => ?_)
  refine timely_emit fun _ _ _ => ?_
  exact timely_when_emit fun _ _ _ => timely_pure _

theorem timely_checkInLocation (host : Host) (userId questId locationId : Id)
    (body : QuestCheckInBody) :
    Timely left false (checkInLocation host userId questId locationId body) w := by
  unfold checkInLocation
  refine inTime_query (fun _ => rfl) fun _ _ => ?_
  refine inTime_expect fun quest _ => ?_
  refine inTime_require fun _ => ?_
  refine inTime_query (fun _ => rfl) fun _ _ => ?_
  refine inTime_expect fun location _ => ?_
  refine inTime_require fun _ => ?_
  refine inTime_query (fun _ => rfl) fun _ _ => ?_
  split
  · exact inTime_query (fun _ => rfl) fun _ _ => timely_pure _
  · unfold checkInNew
    refine inTime_query (fun _ => rfl) fun _ _ => ?_
    refine inTime_expect fun active _ => ?_
    refine inTime_require fun _ => ?_
    refine inTime_require fun _ => ?_
    refine inTime_transaction (txEnds_of_append fun _ outcome _ => ?_)
    split
    · refine timely_emit fun _ _ _ => timely_when_emit fun _ _ _ => ?_
      exact timely_when_emit fun _ _ _ => timely_pure _
    · exact timely_when_emit fun _ _ _ => timely_pure _

theorem timely_issueTokens (host : Host) {user : User} (h : (w.users.find? user.id).isSome) :
    Timely left done (issueTokens host user) w := by
  unfold issueTokens
  refine inTime_query (fun _ => rfl) fun w₁ h₁ => ?_
  refine inTime_query (fun _ => rfl) fun w₂ h₂ => ?_
  have hfound := h₂.users user.id (h₁.users user.id h)
  refine inTime_must (fun w₃ h₃ => isOk_userUpdate (h₃.users user.id hfound) _) fun _ _ _ _ _ _ => ?_
  exact timely_pure _

-- A registration creates its user first.
theorem txEnds_registerTx (host : Host) (dto : RegisterDto) (ids : FreshIds)
    {Q : List Write → User × Option ReferralTxOutcome → World → Prop}
    (h : ∀ rest referral w', Q (.userCreate (newUser host dto ids.user) :: rest)
      (newUser host dto ids.user, referral) w') :
    TxEnds Kept Q (registerTx host dto ids) [] w := by
  unfold registerTx
  refine txEnds_call fun w' _ user ws he => ?_
  obtain ⟨_, _, _, rfl, rfl⟩ := exec_userCreate he
  split
  · exact TxEnds.bind kept (txEnds_of_append fun rest referral w'' _ _ => h rest _ _)
  · exact fun w'' _ => h [] none w''

theorem found_after_create (host : Host) (dto : RegisterDto) (id : Id) (rest : List Write) :
    ((view Stmt w (.userCreate (newUser host dto id) :: rest)).users.find? id).isSome := by
  refine (growth.view (w.apply (.userCreate (newUser host dto id))) rest).users id ?_
  show ((w.users.insert (newUser host dto id)).find? id).isSome
  cases hfound : w.users.find? id with
  | none =>
      rw [Table.find?_insert hfound]
      simp [newUser]
  | some user => exact isSome_insert _ (Option.isSome_of_eq_some hfound)

theorem timely_emitReferralCompleted {out : ReferralTxOutcome} {f : Unit → Request α}
    (h : ∀ done' w', Kept w w' → Timely left done' (f ()) w') :
    Timely left done (emitReferralCompleted out >>= f) w := by
  unfold emitReferralCompleted
  simp only [Prog.bind_assoc]
  refine timely_emit fun _ w₁ h₁ => timely_when_emit fun _ w₂ h₂ => ?_
  exact timely_when_emit fun done' w₃ h₃ => h done' w₃ (kept.trans h₁ (kept.trans h₂ h₃))

theorem timely_register (host : Host) (dto : RegisterDto) (ids : FreshIds) :
    Timely left false (register host dto ids) w := by
  unfold register
  refine inTime_query (fun _ => rfl) fun _ _ => ?_
  refine inTime_require fun _ => ?_
  refine inTime_query (fun _ => rfl) fun _ _ => ?_
  refine inTime_require fun _ => ?_
  refine inTime_transaction (txEnds_registerTx host dto ids fun rest referral w' => ?_)
  have hfound := found_after_create (w := w') host dto ids.user rest
  cases referral with
  | none => exact timely_issueTokens host hfound
  | some out => exact timely_emitReferralCompleted fun _ w'' hw =>
      timely_issueTokens host (hw.users _ hfound)

theorem timely_login (host : AuthHost) (dto : LoginDto) :
    Timely left false (login host dto) w := by
  unfold login
  refine inTime_query (fun _ => rfl) fun _ _ => ?_
  refine inTime_expect fun user _ => ?_
  refine inTime_require fun _ => ?_
  refine inTime_require fun _ => ?_
  unfold recordLogin
  rw [Prog.bind_assoc]
  refine inTime_query (fun _ => rfl) fun _ _ => ?_
  rw [Prog.bind_assoc]
  refine inTime_call fun w' _ _ ws he => ?_
  obtain ⟨row, hrow, _, rfl⟩ := exec_userUpdate he
  exact timely_issueTokens host.toHost ((kept.view w' _).users _ (Option.isSome_of_eq_some hrow))

theorem timely_refresh (host : AuthHost) (refreshToken : String) :
    Timely left false (refresh host refreshToken) w := by
  unfold refresh verifyRefreshToken
  rw [Prog.bind_assoc]
  refine inTime_query (fun _ => rfl) fun _ _ => ?_
  refine inTime_expect fun payload _ => ?_
  refine inTime_query (fun _ => rfl) fun w' _ => ?_
  refine inTime_expect fun user huser => ?_
  refine inTime_expect fun hash _ => ?_
  refine inTime_require fun _ => ?_
  have hid : user.id = payload.sub := Table.key_of_find? huser
  exact timely_issueTokens host.toHost (hid ▸ Option.isSome_of_eq_some huser)

theorem timely_logout (userId : Id) : Timely left false (logout userId) w :=
  timely_last fun _ _ _ => timely_pure ()

theorem any_cancelPending {inviterId : Id} {email : String} {n : ℕ} {ws : List Write}
    (he : Backend.exec (Stmt.inviteCancelPending inviterId email) w = .ok (n, ws)) :
    ws.any (fun wr => !cancellations inviterId w wr) = false := by
  cases he
  refine List.any_eq_false.mpr fun wr hwr => ?_
  obtain ⟨i, hi, rfl⟩ := List.mem_map.mp hwr
  obtain ⟨hmem, hwhere⟩ := List.mem_filter.mp hi
  have hfound : w.invites.find? i.id = some i := Table.find?_of_mem hmem
  have hmine : i.inviterId = inviterId := (of_decide_eq_true hwhere).1
  simp [cancellations, hfound, hmine]

-- Cancelling earlier invites may be all that it did.
theorem timely_createInvite (host : Host) (inviterId : Id) (rawEmail : String) (id : Id)
    (token : String) :
    Timely (cancellations inviterId) false (createInvite host inviterId rawEmail id token) w := by
  unfold createInvite
  refine inTime_require fun _ => ?_
  refine inTime_query (fun _ => rfl) fun _ _ => ?_
  refine inTime_expect fun inviter _ => ?_
  refine inTime_require fun _ => ?_
  refine inTime_query (fun _ => rfl) fun _ _ => ?_
  refine inTime_require fun _ => ?_
  refine inTime_query (fun _ => rfl) fun _ _ => ?_
  refine inTime_query (fun _ => rfl) fun _ _ => ?_
  refine inTime_require fun _ => ?_
  refine inTime_call fun w' _ _ ws he => ?_
  rw [any_cancelPending he]
  exact timely_last (f := .pure) fun _ _ _ => timely_pure _

theorem timely_cancel (inviterId inviteId : Id) :
    Timely left false (cancel inviterId inviteId) w := by
  unfold InvitesService.cancel
  refine inTime_query (fun _ => rfl) fun _ _ => ?_
  refine inTime_expect fun inv _ => ?_
  refine inTime_require fun _ => ?_
  refine inTime_require fun _ => ?_
  exact timely_last (f := .pure) fun _ _ _ => timely_pure _

theorem timely_request (requesterId addresseeId newId : Id) :
    Timely left false (request requesterId addresseeId newId) w := by
  unfold request
  refine inTime_require fun _ => ?_
  refine inTime_query (fun _ => rfl) fun _ _ => ?_
  refine inTime_require fun _ => ?_
  refine inTime_query (fun _ => rfl) fun _ _ => ?_
  exact timely_last fun _ _ _ => timely_emit fun _ _ _ => timely_pure _

theorem timely_accept (userId friendshipId : Id) :
    Timely left false (accept userId friendshipId) w := by
  unfold accept
  refine inTime_query (fun _ => rfl) fun _ _ => ?_
  refine inTime_expect fun f _ => ?_
  refine inTime_require fun _ => ?_
  refine inTime_require fun _ => ?_
  refine inTime_query (fun _ => rfl) fun _ _ => ?_
  exact timely_last fun _ _ _ => timely_emit fun _ _ _ => timely_pure _

-- The new row may be gone before it is blocked.
theorem timely_block (userId otherUserId newId : Id) :
    Timely (pendingRow userId otherUserId) false (block userId otherUserId newId) w := by
  have hupdate (f : Friendship) (w' : World) :
      Timely (pendingRow userId otherUserId) false (do
        let now ← prisma .now
        prisma (.friendshipUpdateStatus f.id .BLOCKED now)) w' :=
    inTime_query (fun _ => rfl) fun _ _ => timely_last (f := .pure) fun _ _ _ => timely_pure _
  unfold block
  refine inTime_query (fun _ => rfl) fun _ _ => ?_
  split
  · exact hupdate _ _
  · refine inTime_query (fun _ => rfl) fun w' _ => ?_
    refine inTime_call fun _ _ f ws he => ?_
    obtain ⟨_, _, _, _, rfl, rfl⟩ := exec_friendshipCreate he
    have hpending (w₁ : World) (row : Friendship)
        (hrow : pendingRow userId otherUserId w₁ (.friendshipCreate row)) :
        [Write.friendshipCreate row].any (fun wr => !pendingRow userId otherUserId w₁ wr) = false := by
      simp [hrow]
    rw [hpending _ _ (by simp [pendingRow])]
    exact hupdate _ _

theorem timely_remove (userId friendshipId : Id) :
    Timely left false (remove userId friendshipId) w := by
  unfold remove
  refine inTime_query (fun _ => rfl) fun _ _ => ?_
  refine inTime_expect fun f _ => ?_
  refine inTime_require fun _ => ?_
  exact timely_last fun _ _ _ => timely_pure ()

-- What may be left behind once may be so for good.
theorem UserRequest.settling {host : AuthHost} {left : World → Write → Bool} {p : Request Unit}
    (hp : UserRequest host left p) : Settling Kept fun w wr => !left w wr := by
  intro w w' hw wr hleft
  cases hp with
  | createInvite inviterId rawEmail id token =>
      cases wr with
      | inviteUpdate id' d =>
          simp only [cancellations, Bool.not_eq_eq_eq_not, Bool.not_false, decide_eq_true_eq,
            Option.any_eq_true] at hleft ⊢
          obtain ⟨hd, i, hi, hmine⟩ := hleft
          obtain ⟨i', hi', hsame⟩ := hw.invites id' i hi
          exact ⟨hd, i', hi', hsame.trans hmine⟩
      | _ => exact hleft
  | _ => exact hleft

theorem UserRequest.timely {host : AuthHost} {left : World → Write → Bool} {p : Request Unit}
    (hp : UserRequest host left p) (w : World) : Timely left false p w := by
  cases hp with
  | quest h =>
      cases h with
      | start => exact timely_start _ _
      | complete proof => exact (timely_complete _ _ _ proof).void kept
      | checkInLocation locationId body =>
          exact (timely_checkInLocation _ _ _ locationId body).void kept
  | register dto ids => exact (timely_register _ dto ids).void kept
  | login dto => exact (timely_login host dto).void kept
  | refresh refreshToken => exact (timely_refresh host refreshToken).void kept
  | logout userId => exact timely_logout userId
  | createInvite inviterId rawEmail id token =>
      exact (timely_createInvite _ inviterId rawEmail id token).void kept
  | cancel inviterId inviteId => exact timely_cancel inviterId inviteId
  | request requesterId addresseeId newId =>
      exact (timely_request requesterId addresseeId newId).void kept
  | accept userId friendshipId => exact (timely_accept userId friendshipId).void kept
  | block userId otherUserId newId => exact (timely_block userId otherUserId newId).void kept
  | remove userId friendshipId => exact timely_remove userId friendshipId

end Requests

-- In every run of any requests, a step that refuses the request of thread `i` leaves it with
-- the writes that are listed for it, and most requests with none.
theorem refused_of_runs {host : AuthHost} {program : ℕ → Request Unit} {w : World}
    {s s' : System Stmt World Write ApiError} {i : ℕ} {left : World → Write → Bool} {e : ApiError}
    (hi : UserRequest host left (program i))
    (h : System.Runs program Guard.none (System.init w) s) (hn : s.next i = some s')
    (he : s'.threads[i]?.bind Thread.failed = some e) :
    ∀ entry ∈ written (s'.store.own i), left s'.store.db entry.2 = true := by
  intro entry hentry
  have hspared := h.refused kept hi.settling (fun w' => hi.timely w') hn he entry hentry
  simpa using hspared

-- User 2 removes the row between the two writes of the block by user 1, which is refused.
theorem refused_block : ∃ s s' : System Stmt World Write ApiError, s.next 0 = some s' ∧
    s'.store.own 0 = [(0, [.friendshipCreate ⟨7, 1, 2, .PENDING, none, 0⟩])] ∧
      ∀ entry ∈ written (s'.store.own 0), pendingRow 1 2 s'.store.db entry.2 = true := by
  let program (i : ℕ) : Request Unit := if i = 0 then (block 1 2 7).void else remove 2 7
  obtain ⟨s, hs, hobs⟩ := System.exists_runs_of_play program Guard.none (System.init strangers)
    (System.interleave [program 0, program 1] [0, 0, 0, 1, 1, 0])
    (fun s => (s.next 0).map fun s' => (s'.threads[0]?.bind Thread.failed, s'.store.own 0))
    (some (some (.prisma .P2025), [(0, [.friendshipCreate ⟨7, 1, 2, .PENDING, none, 0⟩])])) 2 rfl
    (by decide +kernel)
  obtain ⟨s', hn, hrefused⟩ := Option.map_eq_some_iff.mp hobs
  obtain ⟨he, hown⟩ := Prod.mk.inj hrefused
  have hi : UserRequest .plain (pendingRow 1 2) (program 0) := .block 1 2 7
  exact ⟨s, s', hn, hown, refused_of_runs hi hs hn he⟩

end SideQuest
