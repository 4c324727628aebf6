import SideQuest.Achievements.Due
import SideQuest.Lib.Upkeep
import SideQuest.Rewards.Counters

-- The events that make the achievements be evaluated, and the requests that bring nobody
-- closer to an achievement.

namespace SideQuest

open ReadCommitted QuestsService AchievementsService InvitesService AuthService
  FriendshipsService StreakRolloverService
open Presence (acceptedOf)

-- Whose achievements the listeners evaluate.
def AppEvent.evaluates : AppEvent → List Id
  | .questCompleted userId _ _ _ => [userId]
  | .questLocationCheckedIn userId _ _ => [userId]
  | .friendRequestAccepted requesterId addresseeId _ => [requesterId, addresseeId]
  | _ => []

def Hears (event : AppEvent) (userId : Id) : Prop := userId ∈ event.evaluates

def Write.announced : Write → Option AppEvent
  | .emit event => some event
  | _ => none

-- The rows of a friendship's users are there.
def FriendsExist (w : World) : Prop :=
  ∀ f ∈ w.friendships.rows, (w.users.find? f.requesterId).isSome ∧ (w.users.find? f.addresseeId).isSome

-- A request has announced these events, and everyone whom it has brought closer to an
-- achievement is named by one of them.
structure Reports (w w' : World) : Prop where
  events : ∃ news, w'.events = w.events ++ news ∧
    (∀ event ∈ news, ∀ userId, Hears event userId → (w'.users.find? userId).isSome) ∧
      ∀ userId, Spared userId w w' ∨ ∃ event ∈ news, Hears event userId

section Announcements

variable {w w' : World} {ws : List Write}

theorem events_view (w : World) (ws : List Write) :
    (view Stmt w ws).events = w.events ++ ws.filterMap Write.announced := by
  induction ws generalizing w with
  | nil => exact (List.append_nil _).symm
  | cons wr ws ih =>
      rw [view_cons, ih]
      cases wr with
      | emit event => simp [World.apply, Write.announced]
      | _ => rfl

-- Writes, and then the announcement of what they have brought.
theorem reports_writes {news : List AppEvent} (hsilent : ∀ wr ∈ ws, wr.announced = none)
    (hknown : ∀ event ∈ news, ∀ userId, Hears event userId →
      ((view Stmt w ws).users.find? userId).isSome)
    (hspared : ∀ userId, Spared userId w (view Stmt w ws) ∨ ∃ event ∈ news, Hears event userId) :
    Reports w (view Stmt w (ws ++ news.map .emit)) := by
  rw [view_append, view_emits]
  have hevents : (view Stmt w ws).events = w.events := by
    rw [events_view, List.filterMap_eq_nil_iff.mpr hsilent, List.append_nil]
  refine ⟨⟨news, congrArg (· ++ news) hevents, hknown, fun userId => ?_⟩⟩
  refine (hspared userId).imp (fun h => ?_) id
  exact h.trans { Spared.refl userId (view Stmt w ws) with }

theorem Reports.refl (w : World) : Reports w w :=
  ⟨⟨[], (List.append_nil _).symm, fun _ h => absurd h List.not_mem_nil,
    fun userId => Or.inl (.refl userId w)⟩⟩

end Announcements

-- The requests that bring nobody closer to an achievement, and the evaluations.
section Quiet

-- A statement that brings nobody closer, and to which no listener reacts.
def quiet : {β : Type} → Stmt β → Prop
  | _, .emit event => event.evaluates = []
  | _, .userCreate _ => False
  | _, .userUpdate _ d => d.streakDays = none
  | _, .completionUpdate _ _ d => d.status ≠ some .COMPLETED
  | _, .friendshipCreate row => row.status ≠ .ACCEPTED
  | _, .friendshipUpdateStatus _ status _ => status ≠ .ACCEPTED
  | _, _ => True

def Still (wr : Write) : Prop :=
  (∀ userId, Harmless userId wr) ∧ ∀ event ∈ wr.announced, event.evaluates = []

variable {w w' : World}

theorem exec_quiet {β : Type} {st : Stmt β} {b : β} {ws : List Write} (hst : quiet st)
    (h : Stmt.exec st w = .ok (b, ws)) : ∀ wr ∈ ws, Still wr := by
  cases st <;> simp only [Stmt.exec, ask, fail] at h <;>
    grind [quiet, Still, Harmless, Write.announced, acceptedOf]

-- What quiet statements come to.
structure Quietly (w w' : World) : Prop where
  spared : ∀ userId, Spared userId w w'
  events : ∃ news, w'.events = w.events ++ news ∧ ∀ event ∈ news, event.evaluates = []

theorem Quietly.refl (w : World) : Quietly w w where
  spared userId := .refl userId w
  events := ⟨[], (List.append_nil _).symm, fun _ h => absurd h List.not_mem_nil⟩

theorem Quietly.view (h : Quietly w w') {ws : List Write} (hws : ∀ wr ∈ ws, Still wr) :
    Quietly w (view Stmt w' ws) := by
  obtain ⟨news, hevents, hnews⟩ := h.events
  refine ⟨fun userId => (h.spared userId).trans (spared_view fun wr hwr => (hws wr hwr).1 userId),
    news ++ ws.filterMap Write.announced, ?_, fun event he => ?_⟩
  · rw [events_view, hevents, List.append_assoc]
  · rcases List.mem_append.mp he with hold | hnew
    · exact hnews event hold
    · obtain ⟨wr, hwr, hannounced⟩ := List.mem_filterMap.mp hnew
      exact (hws wr hwr).2 event hannounced

theorem Quietly.reports (h : Quietly w w') : Reports w w' := by
  obtain ⟨news, hevents, hnews⟩ := h.events
  refine ⟨⟨news, hevents, fun event he userId hears => ?_, fun userId => Or.inl (h.spared userId)⟩⟩
  rw [Hears, hnews event he] at hears
  exact absurd hears List.not_mem_nil

-- A request whose statements are all quiet.
theorem quietly_alone {α : Type} {p : Request α} (hp : p.Uses quiet) (w : World) :
    Quietly w (p.alone w).2 :=
  hp.alone (Quietly w) (fun _ _ _ _ hst h he => h.view (exec_quiet hst he)) (.refl w)

theorem uses_start (userId questId : Id) : (start userId questId).Uses quiet := by
  unfold start
  refine Prog.uses_call trivial fun _ => Prog.uses_expect fun _ => Prog.uses_require ?_
  refine Prog.uses_call trivial fun now => Prog.uses_call trivial fun _ => ?_
  exact ⟨rfl, fun _ => trivial⟩

theorem uses_request (requesterId addresseeId newId : Id) :
    (request requesterId addresseeId newId).Uses quiet := by
  unfold request
  refine Prog.uses_require (Prog.uses_call trivial fun _ => Prog.uses_require ?_)
  refine Prog.uses_call trivial fun now => Prog.uses_call (by simp [quiet]) fun created => ?_
  exact Prog.uses_call rfl fun _ => trivial

theorem uses_block (userId otherUserId newId : Id) :
    (block userId otherUserId newId).Uses quiet := by
  have hcreate : (do
      let now ← prisma .now
      prisma (.friendshipCreate (newFriendship userId otherUserId newId now)) :
        Request Friendship).Uses quiet :=
    Prog.uses_call trivial fun now => ⟨by simp [quiet], fun _ => trivial⟩
  have hblocks (f : Friendship) : (do
      let now ← prisma .now
      prisma (.friendshipUpdateStatus f.id .BLOCKED now) : Request Friendship).Uses quiet :=
    Prog.uses_call trivial fun now => ⟨by simp [quiet], fun _ => trivial⟩
  unfold block
  refine Prog.uses_call trivial fun found => ?_
  cases found with
  | some f => exact hblocks f
  | none => exact hcreate.bind hblocks

theorem uses_remove (userId friendshipId : Id) : (remove userId friendshipId).Uses quiet := by
  unfold remove
  refine Prog.uses_call trivial fun _ => Prog.uses_expect fun _ => Prog.uses_require ?_
  exact Prog.uses_call trivial fun _ => trivial

theorem uses_createInvite (host : Host) (inviterId : Id) (rawEmail : String) (id : Id)
    (token : String) : (createInvite host inviterId rawEmail id token).Uses quiet := by
  unfold createInvite
  refine Prog.uses_require (Prog.uses_call trivial fun _ => Prog.uses_expect fun _ => ?_)
  refine Prog.uses_require (Prog.uses_call trivial fun _ => Prog.uses_require ?_)
  refine Prog.uses_call trivial fun now => Prog.uses_call trivial fun _ => Prog.uses_require ?_
  exact Prog.uses_call trivial fun _ => ⟨trivial, fun _ => trivial⟩

theorem uses_cancel (inviterId inviteId : Id) : (cancel inviterId inviteId).Uses quiet := by
  unfold cancel
  refine Prog.uses_call trivial fun _ => Prog.uses_expect fun _ => Prog.uses_require ?_
  exact Prog.uses_require ⟨trivial, fun _ => trivial⟩

theorem uses_issueTokens (host : Host) (user : User) : (issueTokens host user).Uses quiet := by
  unfold issueTokens
  refine Prog.uses_call trivial fun _ => Prog.uses_call trivial fun _ => ?_
  exact Prog.uses_call rfl fun _ => trivial

theorem uses_login (host : AuthHost) (dto : LoginDto) : (login host dto).Uses quiet := by
  unfold login recordLogin
  refine Prog.uses_call trivial fun _ => Prog.uses_expect fun user => ?_
  refine Prog.uses_require (Prog.uses_require ?_)
  refine Prog.Uses.bind (Prog.uses_call trivial fun _ => Prog.uses_call rfl fun _ => trivial) ?_
  exact fun _ => uses_issueTokens host.toHost user

theorem uses_refresh (host : AuthHost) (token : String) : (refresh host token).Uses quiet := by
  unfold refresh verifyRefreshToken
  refine Prog.Uses.bind (Prog.uses_call trivial fun now => ?_) fun payload => ?_
  · unfold Prog.expect
    split <;> trivial
  · refine Prog.uses_call trivial fun _ => Prog.uses_expect fun user => Prog.uses_expect fun _ => ?_
    exact Prog.uses_require (uses_issueTokens host.toHost user)

theorem uses_logout (userId : Id) : (logout userId).Uses quiet :=
  Prog.uses_call rfl fun _ => trivial

theorem uses_resetStaleStreaksUtc : resetStaleStreaksUtc.Uses quiet :=
  Prog.uses_call trivial fun _ => Prog.uses_call trivial fun _ => trivial

theorem uses_evaluateWithProgress (achievement : Achievement) (userId : Id) :
    (evaluateWithProgress achievement userId).Uses quiet := by
  unfold evaluateWithProgress
  cases achievement.type with
  | QUEST_COUNT | LOCATION_VISITS | SOCIAL =>
      dsimp only
      split
      · trivial
      · exact ⟨trivial, fun _ => trivial⟩
  | CATEGORY_EXPLORER =>
      dsimp only
      split
      · split
        · trivial
        · exact ⟨trivial, fun _ => trivial⟩
      · trivial
  | STREAK =>
      dsimp only
      split
      · trivial
      · refine ⟨trivial, fun user => ?_⟩
        cases user <;> trivial
  | XP_THRESHOLD =>
      refine ⟨trivial, fun user => ?_⟩
      cases user <;> trivial
  | CUSTOM => trivial

theorem uses_unlock (userId : Id) (achievement : Achievement) :
    (unlock userId achievement).Uses quiet := by
  have htx : (unlockTx userId achievement).Uses quiet := by
    unfold unlockTx
    refine ⟨trivial, fun now => ⟨trivial, fun _ => ?_⟩⟩
    split
    · exact ⟨rfl, fun user => ⟨rfl, fun _ => trivial⟩⟩
    · trivial
  have htell (level : ℕ) : (if achievement.xpBonus > 0 then do
        let after ← prisma (.userFindUnique userId)
        let newLevel := (after.map User.level).getD level
        Prog.when (newLevel > level) (emit (.levelUp userId level newLevel))
      else return () : Request Unit).Uses quiet := by
    split
    · exact Prog.uses_call trivial fun _ => Prog.uses_when ⟨rfl, fun _ => trivial⟩
    · trivial
  unfold unlock
  refine Prog.uses_call trivial fun before => ⟨htx, fun _ => ?_⟩
  exact ⟨rfl, fun _ => htell _⟩

theorem uses_evaluateOne (userId : Id) (achievement : Achievement) :
    (evaluateOne userId achievement).Uses quiet := by
  unfold evaluateOne
  refine Prog.uses_call trivial fun existing => ?_
  split
  · trivial
  · refine (uses_evaluateWithProgress achievement userId).bind fun result => ?_
    split
    all_goals
      split
      · exact uses_unlock userId achievement
      · exact Prog.uses_when ⟨trivial, fun _ => trivial⟩

theorem uses_evaluateForUser (userId : Id) : (evaluateForUser userId).Uses quiet := by
  refine Prog.uses_call trivial fun definitions => ?_
  induction definitions with
  | nil => trivial
  | cons achievement rest ih => exact (uses_evaluateOne userId achievement).bind fun _ => ih

end Quiet

end SideQuest
