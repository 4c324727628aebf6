import SideQuest.Friendships.Consent
import SideQuest.Friendships.OnePerPair
import SideQuest.Friendships.Society
import SideQuest.Auth.Sessions
import SideQuest.Lib.Serving
import Mathlib.Data.List.Find

-- The service refines the society: each call does what it means there, and is refused
-- exactly when the society refuses it.

namespace SideQuest

open ReadCommitted FriendshipsService InvitesService AuthService

section Abstraction

def Friendship.pair (f : Friendship) : Sym2 Id := s(f.requesterId, f.addresseeId)

def Friendship.bond (f : Friendship) : Bond :=
  match f.status with
  | .PENDING => .asked f.requesterId
  | .ACCEPTED => .friends
  | .BLOCKED => .blocked

def World.friendshipOf (w : World) (pair : Sym2 Id) : Option Friendship :=
  w.friendships.rows.find? fun f => f.pair = pair

def World.society (w : World) : Society where
  member u := (w.users.find? u).isSome
  bond pair := (w.friendshipOf pair).map Friendship.bond

variable {w : World} {a b : Id} {f : Friendship}

theorem Friendship.pair_eq_iff : f.pair = s(a, b) ↔ f.Joins a b := Sym2.eq_iff

theorem Friendship.mem_pair (f : Friendship) (a : Id) :
    a ∈ f.pair ↔ f.requesterId = a ∨ f.addresseeId = a := by
  rw [Friendship.pair, Sym2.mem_iff]
  exact or_congr eq_comm eq_comm

theorem friendshipOf_eq (w : World) (a b : Id) :
    w.friendshipOf s(a, b) = w.friendshipBetween a b := by
  simp only [World.friendshipOf, World.friendshipBetween, Friendship.pair_eq_iff, Friendship.Joins]

theorem friendshipOf_some {pair : Sym2 Id} (h : w.friendshipOf pair = some f) :
    f ∈ w.friendships.rows ∧ f.pair = pair := by
  have hpair := List.find?_some h
  exact ⟨List.mem_of_find?_eq_some h, of_decide_eq_true hpair⟩

theorem friendship_eq_of_id {g : Friendship} (hg : g ∈ w.friendships.rows)
    (hf : f ∈ w.friendships.rows) (hid : g.id = f.id) : g = f := by
  have hfound := Table.find?_of_mem hg
  rw [hid, Table.find?_of_mem hf] at hfound
  exact (Option.some.inj hfound).symm

theorem OnePerPair.eq_of_pair (h : OnePerPair w) {g : Friendship} (hf : f ∈ w.friendships.rows)
    (hg : g ∈ w.friendships.rows) (hpair : f.pair = g.pair) : f = g :=
  h g.requesterId g.addresseeId f hf g hg (Friendship.pair_eq_iff.mp hpair) (Or.inl ⟨rfl, rfl⟩)

theorem OnePerPair.friendshipOf (h : OnePerPair w) (hf : f ∈ w.friendships.rows) :
    w.friendshipOf f.pair = some f := by
  rw [Friendship.pair, friendshipOf_eq, friendshipBetween_eq_some_iff h]
  exact ⟨hf, Or.inl ⟨rfl, rfl⟩⟩

-- Whatever leaves the users and one friendship for each pair as the tie says.
theorem society_eq_tie {w' : World} {pair : Sym2 Id} {bond : Option Bond}
    (husers : w'.users = w.users) (hself : (w'.friendshipOf pair).map Friendship.bond = bond)
    (hother : ∀ pair', pair' ≠ pair → (w'.friendshipOf pair').map Friendship.bond =
      (w.friendshipOf pair').map Friendship.bond) : w'.society = w.society.tie pair bond := by
  refine Society.ext (funext fun u => ?_) (funext fun pair' => ?_)
  · show (w'.users.find? u).isSome = (w.users.find? u).isSome
    rw [husers]
  · by_cases he : pair' = pair
    · rw [he, Society.tie_self]
      exact hself
    · rw [Society.tie_ne he]
      exact hother pair' he

theorem society_create {row : Friendship} (hfree : w.friendships.find? row.id = none)
    (hpair : w.friendshipOf row.pair = none) :
    (w.apply (.friendshipCreate row)).society = w.society.tie row.pair (some row.bond) := by
  have hfind (pair : Sym2 Id) : (w.apply (.friendshipCreate row)).friendshipOf pair =
      (w.friendshipOf pair).or (if row.pair = pair then some row else none) := by
    simp only [World.friendshipOf, World.apply, Table.rows_insert hfree, List.find?_append,
      List.find?_singleton, decide_eq_true_eq]
  refine society_eq_tie rfl ?_ fun pair' hne => ?_
  · rw [hfind, hpair, if_pos rfl]
    rfl
  · rw [hfind, if_neg hne.symm, Option.or_none]

theorem society_update (h : OnePerPair w) (hf : f ∈ w.friendships.rows) (d : FriendshipUpdate) :
    (w.apply (.friendshipUpdate f.id d)).society = w.society.tie f.pair (some (d.apply f).bond) := by
  have hfind (pair : Sym2 Id) : (w.apply (.friendshipUpdate f.id d)).friendshipOf pair =
      (w.friendshipOf pair).map fun g => if g.id = f.id then d.apply g else g := by
    have hsame (g : Friendship) : (if g.id = f.id then d.apply g else g).pair = g.pair := by
      split <;> rfl
    simp only [World.friendshipOf, World.apply, Table.modify, List.find?_map, Function.comp_def,
      hsame]
  refine society_eq_tie rfl ?_ fun pair' hne => ?_
  · rw [hfind, h.friendshipOf hf, Option.map_some, if_pos rfl]
    rfl
  · rw [hfind]
    cases hg : w.friendshipOf pair' with
    | none => rfl
    | some g =>
        have hid : g.id ≠ f.id := fun he => by
          obtain ⟨hmem, hpair⟩ := friendshipOf_some hg
          have hgf := friendship_eq_of_id hmem hf he
          exact hne (hpair.symm.trans (congrArg Friendship.pair hgf))
        rw [Option.map_some, if_neg hid]

theorem society_delete (h : OnePerPair w) (hf : f ∈ w.friendships.rows) :
    (w.apply (.friendshipDelete f)).society = w.society.tie f.pair none := by
  refine society_eq_tie rfl ?_ fun pair' hne => ?_
  · have hnone : (w.apply (.friendshipDelete f)).friendshipOf f.pair = none := by
      refine List.find?_eq_none.mpr fun g hg hpair => ?_
      obtain ⟨hmem, hid⟩ := List.mem_filter.mp hg
      have hgf := h.eq_of_pair hmem hf (of_decide_eq_true hpair)
      exact of_decide_eq_true hid (congrArg Friendship.id hgf)
    rw [hnone]
    rfl
  · have hfind : (w.apply (.friendshipDelete f)).friendshipOf pair' = w.friendshipOf pair' := by
      simp only [World.friendshipOf, World.apply, Table.erase, List.find?_filter]
      refine List.find?_congr fun g hg => ?_
      have hkept : g.pair = pair' → g.id ≠ f.id := fun hpair hid =>
        hne (hpair.symm.trans (congrArg Friendship.pair (friendship_eq_of_id hg hf hid)))
      by_cases hpair : g.pair = pair'
      · simp [hpair, hkept hpair]
      · simp [hpair]
    rw [hfind]

end Abstraction

-- Whether a request goes through on its own, and what it leaves behind.
def tried {α : Type} (p : Request α) (w : World) : Bool × World :=
  ((p.alone w).1.isOk, (p.alone w).2)

section Requests

variable {w : World} {userId otherUserId friendshipId newId : Id} {f : Friendship}

-- What it means for one of the requests that the society says how it ends.
abbrev Refines {α : Type} (p : Request α) (deed : Deed) (w : World) : Prop :=
  w.society.attempt deed = ((tried p w).1, (tried p w).2.society)

theorem refines_some {α : Type} {p : Request α} {deed : Deed} {a : α} {w' : World}
    (hp : p.alone w = (.ok a, w')) (h : w.society.outcome deed = some w'.society) :
    Refines p deed w := by
  rw [Refines, Society.attempt_some h, tried, hp]
  rfl

theorem refines_none {α : Type} {p : Request α} {deed : Deed} {e : ApiError}
    (hp : p.alone w = (.error e, w)) (h : w.society.outcome deed = none) : Refines p deed w := by
  rw [Refines, Society.attempt_none h, tried, hp]
  rfl

theorem exec_newFriendship (hfree : w.friendships.find? newId = none)
    (hpair : w.friendshipBetween userId otherUserId = none) (now : Time) :
    Stmt.exec (.friendshipCreate (newFriendship userId otherUserId newId now)) w =
      if w.society.member userId ∧ w.society.member otherUserId then
        .ok (newFriendship userId otherUserId newId now,
          [.friendshipCreate (newFriendship userId otherUserId newId now)])
      else fail .P2003 := by
  have hexec : Stmt.exec (.friendshipCreate (newFriendship userId otherUserId newId now)) w =
      if (w.users.find? userId).isNone ∨ (w.users.find? otherUserId).isNone then fail .P2003
      else .ok (newFriendship userId otherUserId newId now,
        [.friendshipCreate (newFriendship userId otherUserId newId now)]) := by
    simp [Stmt.exec, hfree, friendshipOfPair_of_between hpair]
  rw [hexec]
  cases huser : w.users.find? userId <;> cases hother : w.users.find? otherUserId <;>
    simp [World.society, huser, hother]

theorem society_between (w : World) (a b : Id) :
    w.society.bond s(a, b) = (w.friendshipBetween a b).map Friendship.bond :=
  congrArg (Option.map Friendship.bond) (friendshipOf_eq w a b)

theorem society_newFriendship (hfree : w.friendships.find? newId = none)
    (hpair : w.friendshipBetween userId otherUserId = none) (now : Time) :
    (w.apply (.friendshipCreate (newFriendship userId otherUserId newId now))).society =
      w.society.tie s(userId, otherUserId) (some (.asked userId)) :=
  society_create hfree ((friendshipOf_eq w userId otherUserId).trans hpair)

theorem request_refines (hfree : w.friendships.find? newId = none) :
    Refines (request userId otherUserId newId) (.ask userId otherUserId) w := by
  have hfind : Stmt.exec (.friendshipFindBetween userId otherUserId) w =
      .ok (w.friendshipBetween userId otherUserId, []) := rfl
  have hclock : Stmt.exec .now w = .ok (w.clock, []) := rfl
  have hbond := society_between w userId otherUserId
  by_cases hself : userId = otherUserId
  · exact refines_none (Prog.alone_require_not fun h => h hself) (if_neg fun h => h.1 hself)
  · cases hpair : w.friendshipBetween userId otherUserId with
    | some f =>
        rw [hpair] at hfind hbond
        have hrun : (request userId otherUserId newId).alone w =
            (.error (.conflict "Friendship already exists"), w) := by
          refine (Prog.alone_require hself).trans ((Prog.alone_query hfind).trans ?_)
          exact Prog.alone_require_not nofun
        refine refines_none hrun (if_neg fun h => ?_)
        rw [hbond] at h
        cases h.2.1
    | none =>
        rw [hpair] at hfind hbond
        have hexec := exec_newFriendship hfree hpair w.clock
        let row := newFriendship userId otherUserId newId w.clock
        by_cases husers : w.society.member userId ∧ w.society.member otherUserId
        · rw [if_pos husers] at hexec
          have hrun : (request userId otherUserId newId).alone w =
              (.ok row, (w.apply (.friendshipCreate row)).apply
                (.emit (.friendRequestSent userId otherUserId newId))) := by
            refine (Prog.alone_require hself).trans ((Prog.alone_query hfind).trans ?_)
            refine (Prog.alone_require rfl).trans ((Prog.alone_query hclock).trans ?_)
            exact (Prog.alone_call hexec).trans (Prog.alone_bind alone_emit)
          refine refines_some hrun ((if_pos ⟨hself, hbond, husers⟩).trans ?_)
          exact congrArg some (society_newFriendship hfree hpair w.clock).symm
        · rw [if_neg husers] at hexec
          have hrun : (request userId otherUserId newId).alone w =
              (.error (.prisma .P2003), w) := by
            refine (Prog.alone_require hself).trans ((Prog.alone_query hfind).trans ?_)
            refine (Prog.alone_require rfl).trans ((Prog.alone_query hclock).trans ?_)
            exact Prog.alone_call_error hexec
          exact refines_none hrun (if_neg fun h => husers h.2.2)

theorem exec_updateStatus (hf : f ∈ w.friendships.rows) (status : FriendshipStatus) (now : Time) :
    Stmt.exec (.friendshipUpdateStatus f.id status now) w =
      .ok (FriendshipUpdate.apply ⟨status, now⟩ f, [.friendshipUpdate f.id ⟨status, now⟩]) := by
  simp only [Stmt.exec, Table.find?_of_mem hf]

-- Only a pending row says who has asked.
theorem Friendship.bond_eq_asked {asker : Id} (h : f.bond = .asked asker) :
    f.status = .PENDING ∧ f.requesterId = asker := by
  cases hstatus : f.status with
  | PENDING =>
      rw [Friendship.bond, hstatus] at h
      exact ⟨rfl, Bond.asked.inj h⟩
  | _ =>
      rw [Friendship.bond, hstatus] at h
      cases h

theorem Friendship.bond_eq_friends : f.bond = .friends ↔ f.status = .ACCEPTED := by
  cases hstatus : f.status <;> simp [Friendship.bond, hstatus]

theorem accept_refines (h : OnePerPair w) (hf : f ∈ w.friendships.rows) :
    Refines (accept userId f.id) (.accept userId f.pair) w := by
  have hfind : Stmt.exec (.friendshipFindUnique f.id) w = .ok (some f, []) := by
    rw [Stmt.exec, Table.find?_of_mem hf, ask]
  have hclock : Stmt.exec .now w = .ok (w.clock, []) := rfl
  have hbond : w.society.bond f.pair = some f.bond :=
    congrArg (Option.map Friendship.bond) (h.friendshipOf hf)
  by_cases hallowed : f.addresseeId = userId ∧ f.status = .PENDING
  · obtain ⟨haddressee, hpending⟩ := hallowed
    let accepted : FriendshipUpdate := ⟨.ACCEPTED, w.clock⟩
    have hrun : (accept userId f.id).alone w = (.ok (accepted.apply f),
        (w.apply (.friendshipUpdate f.id accepted)).apply
          (.emit (.friendRequestAccepted f.requesterId f.addresseeId f.id))) := by
      refine (Prog.alone_query hfind).trans ((Prog.alone_expect rfl).trans ?_)
      refine (Prog.alone_require haddressee).trans ((Prog.alone_require hpending).trans ?_)
      refine (Prog.alone_query hclock).trans ?_
      exact (Prog.alone_call (exec_updateStatus hf _ _)).trans (Prog.alone_bind alone_emit)
    have hasked : f.bond = .asked f.requesterId := by rw [Friendship.bond, hpending]
    have hpair : f.pair = s(f.requesterId, userId) := by rw [Friendship.pair, haddressee]
    refine refines_some hrun ?_
    simp only [Society.outcome, hbond, hasked]
    rw [if_pos hpair]
    exact congrArg some (society_update h hf accepted).symm
  · obtain ⟨e, hrun⟩ : ∃ e, (accept userId f.id).alone w = (.error e, w) := by
      by_cases haddressee : f.addresseeId = userId
      · refine ⟨.badRequest "Friendship is not pending", ?_⟩
        refine (Prog.alone_query hfind).trans ((Prog.alone_expect rfl).trans ?_)
        refine (Prog.alone_require haddressee).trans ?_
        exact Prog.alone_require_not fun hpending => hallowed ⟨haddressee, hpending⟩
      · refine ⟨.forbidden "Only the addressee can accept", ?_⟩
        refine (Prog.alone_query hfind).trans ((Prog.alone_expect rfl).trans ?_)
        exact Prog.alone_require_not haddressee
    refine refines_none hrun ?_
    simp only [Society.outcome, hbond]
    split
    · rename_i asker hasked
      obtain ⟨hpending, rfl⟩ := Friendship.bond_eq_asked (Option.some.inj hasked)
      refine if_neg fun hpair => hallowed ⟨?_, hpending⟩
      exact Sym2.congr_right.mp hpair
    · rfl

theorem remove_refines (h : OnePerPair w) (hf : f ∈ w.friendships.rows) :
    Refines (remove userId f.id) (.remove userId f.pair) w := by
  have hfind : Stmt.exec (.friendshipFindUnique f.id) w = .ok (some f, []) := by
    rw [Stmt.exec, Table.find?_of_mem hf, ask]
  have hdelete : Stmt.exec (.friendshipDelete f.id) w = .ok (f, [.friendshipDelete f]) := by
    simp only [Stmt.exec, Table.find?_of_mem hf]
  have hbond : w.society.bond f.pair = some f.bond :=
    congrArg (Option.map Friendship.bond) (h.friendshipOf hf)
  have hside : userId ∈ f.pair ↔ f.requesterId = userId ∨ f.addresseeId = userId := f.mem_pair userId
  by_cases hallowed : f.requesterId = userId ∨ f.addresseeId = userId
  · have hrun : (remove userId f.id).alone w = (.ok (), w.apply (.friendshipDelete f)) := by
      refine (Prog.alone_query hfind).trans ((Prog.alone_expect rfl).trans ?_)
      exact (Prog.alone_require hallowed).trans ((Prog.alone_call hdelete).trans rfl)
    refine refines_some hrun ?_
    refine (if_pos ⟨hside.mpr hallowed, Option.isSome_of_eq_some hbond⟩).trans ?_
    exact congrArg some (society_delete h hf).symm
  · have hrun : (remove userId f.id).alone w = (.error (.forbidden "Not allowed"), w) := by
      refine (Prog.alone_query hfind).trans ((Prog.alone_expect rfl).trans ?_)
      exact Prog.alone_require_not hallowed
    exact refines_none hrun (if_neg fun h => hallowed (hside.mp h.1))

theorem block_refines (h : OnePerPair w) (hfree : w.friendships.find? newId = none) :
    Refines (block userId otherUserId newId) (.block userId otherUserId) w := by
  have hfind : Stmt.exec (.friendshipFindBetween userId otherUserId) w =
      .ok (w.friendshipBetween userId otherUserId, []) := rfl
  have hclock (w : World) : Stmt.exec .now w = .ok (w.clock, []) := rfl
  have hbond := society_between w userId otherUserId
  let blocked : FriendshipUpdate := ⟨.BLOCKED, w.clock⟩
  cases hpair : w.friendshipBetween userId otherUserId with
  | some f =>
      rw [hpair] at hfind hbond
      obtain ⟨hf, hjoins⟩ := World.friendshipBetween_eq_some hpair
      have hrun : (block userId otherUserId newId).alone w =
          (.ok (blocked.apply f), w.apply (.friendshipUpdate f.id blocked)) := by
        refine (Prog.alone_query hfind).trans ((Prog.alone_query (hclock w)).trans ?_)
        exact (Prog.alone_last (exec_updateStatus hf _ _)).trans rfl
      refine refines_some hrun ?_
      refine (if_pos (Or.inl (Option.isSome_of_eq_some hbond))).trans ?_
      rw [society_update h hf, Friendship.pair_eq_iff.mpr hjoins]
      rfl
  | none =>
      rw [hpair] at hfind hbond
      have hexec := exec_newFriendship hfree hpair w.clock
      let row := newFriendship userId otherUserId newId w.clock
      let created := w.apply (.friendshipCreate row)
      by_cases husers : w.society.member userId ∧ w.society.member otherUserId
      · rw [if_pos husers] at hexec
        have hcreate : (do
            let now ← prisma .now
            prisma (.friendshipCreate (newFriendship userId otherUserId newId now)) :
              Request Friendship).alone w = (.ok row, created) :=
          (Prog.alone_query (hclock w)).trans ((Prog.alone_last hexec).trans rfl)
        have hrows : created.friendships.rows = w.friendships.rows ++ [row] :=
          Table.rows_insert hfree
        have hmem : row ∈ created.friendships.rows := by
          rw [hrows]
          exact List.mem_append_right _ List.mem_cons_self
        have honly : OnePerPair created := (h.blockInv.create row hpair hfree rfl).onePerPair
        have hrun : (block userId otherUserId newId).alone w =
            (.ok (blocked.apply row), created.apply (.friendshipUpdate row.id blocked)) := by
          refine (Prog.alone_query hfind).trans ((Prog.alone_bind hcreate).trans ?_)
          refine (Prog.alone_query (hclock created)).trans ?_
          exact (Prog.alone_last (exec_updateStatus hmem _ _)).trans rfl
        refine refines_some hrun ((if_pos (Or.inr husers)).trans ?_)
        rw [society_update honly hmem, society_newFriendship hfree hpair]
        exact congrArg some (w.society.tie_tie _ _ _).symm
      · rw [if_neg husers] at hexec
        have hrun : (block userId otherUserId newId).alone w =
            (.error (.prisma .P2003), w) := by
          refine (Prog.alone_query hfind).trans ((Prog.alone_query (hclock w)).trans ?_)
          exact Prog.alone_call_error hexec
        refine refines_none hrun (if_neg fun h => husers (h.resolve_left fun hsome => ?_))
        rw [hbond] at hsome
        cases hsome

end Requests

section Register

variable {host : Host} {dto : RegisterDto} {ids : FreshIds} {w : World}

-- The user whose invite the registration names.
def inviterOf (host : Host) (dto : RegisterDto) (w : World) : Option Id :=
  (dto.token host).bind fun token => (w.inviteByToken token).map Invite.inviterId

-- An invite that waits for a user with this address.
def opened (host : Host) (email : String) (w : World) (invite : Invite) : Bool :=
  invite.status = .PENDING ∧ w.clock - invite.sentAt ≤ INVITE_EXPIRY_MS ∧
    normalizeEmail host invite.email = normalizeEmail host email

-- What a registration has to bring, whoever knows whom: an address and a name that nobody has,
-- and with a token the one of an open invite.
def admits (host : Host) (dto : RegisterDto) (w : World) : Bool :=
  let email := host.toLowerCase (host.trim dto.email)
  (w.userByEmail email).isNone ∧ (w.userByUsername dto.username).isNone ∧
    (dto.token host).all fun token => (w.inviteByToken token).any (opened host email w)

def joining (host : Host) (dto : RegisterDto) (ids : FreshIds) (w : World) : Deed :=
  if admits host dto w then .join ids.user (inviterOf host dto w) else .stray

-- A write that changes neither who there is nor a friendship.
def Bystands : Write → Prop
  | .userCreate _ | .friendshipCreate _ | .friendshipUpdate _ _ | .friendshipDelete _ => False
  | _ => True

theorem society_bystands {wr : Write} (h : Bystands wr) : (w.apply wr).society = w.society := by
  cases wr with
  | userUpdate id data =>
      exact Society.ext (funext fun u => isSome_userUpdate id data u) rfl
  | userCreate | friendshipCreate | friendshipUpdate | friendshipDelete => exact h.elim
  | _ => rfl

theorem society_view {ws : List Write} (h : ∀ wr ∈ ws, Bystands wr) :
    (view Stmt w ws).society = w.society := by
  induction ws generalizing w with
  | nil => rfl
  | cons wr ws ih =>
      rw [view_cons, ih fun wr' hwr' => h wr' (List.mem_cons_of_mem _ hwr'), apply_eq]
      exact society_bystands (h wr List.mem_cons_self)

theorem society_created (h : Free host dto ids w) :
    (created host dto ids w).society = w.society.welcome ids.user := by
  refine Society.ext (funext fun u => ?_) rfl
  show ((created host dto ids w).users.find? u).isSome = _
  rw [find?_created h.id]
  by_cases hu : u = ids.user
  · rw [hu, if_pos rfl]
    exact (Society.member_welcome_self w.society ids.user).symm
  · rw [if_neg (Ne.symm hu)]
    simp [Society.welcome, World.society, hu]

-- The new user and his inviter had nothing to do with each other.
theorem between_new (hclosed : w.society.Closed) (h : Free host dto ids w) (inviterId : Id) :
    w.friendshipBetween inviterId ids.user = none := by
  by_contra hsome
  have hbond : (w.society.bond s(inviterId, ids.user)).isSome := by
    rw [society_between, Option.isSome_map]
    exact Option.isSome_iff_ne_none.mpr hsome
  have hmember : (w.users.find? ids.user).isSome :=
    hclosed _ hbond ids.user (Sym2.mem_mk_right inviterId ids.user)
  rw [h.id] at hmember
  cases hmember

theorem society_redeemed {token : String} {invite : Invite} {inviter : User}
    (hclosed : w.society.Closed) (h : Free host dto ids w)
    (hredeems : Redeems host dto ids w token invite inviter) :
    (view Stmt (created host dto ids w) (referralWrites host dto ids w invite inviter)).society =
      (w.society.welcome ids.user).tie s(invite.inviterId, ids.user) (some .friends) := by
  have hnone : (created host dto ids w).friendshipBetween invite.inviterId ids.user = none :=
    between_new hclosed h invite.inviterId
  have hfree : (created host dto ids w).friendships.find? ids.friendship = none := by
    simpa [hnone] using hredeems.befriends
  let row := referralFriendship invite.inviterId ids.user ids.friendship w.clock
  let claimed := (created host dto ids w).apply (claimWrite invite.id ids.user w.clock)
  have hwrites : view Stmt (created host dto ids w) (referralWrites host dto ids w invite inviter) =
      view Stmt (claimed.apply (.friendshipCreate row)) [referralWrite inviter invite.inviterId,
        referralWrite (newUser host dto ids.user) ids.user] := by
    simp only [referralWrites, redemptionWrites, befriendWrites, hnone]
    rfl
  have hbystand : ∀ wr ∈ [referralWrite inviter invite.inviterId,
      referralWrite (newUser host dto ids.user) ids.user], Bystands wr := by
    intro wr hwr
    rcases List.mem_pair.mp hwr with rfl | rfl <;> trivial
  have hpair : claimed.friendshipOf row.pair = none :=
    (friendshipOf_eq claimed invite.inviterId ids.user).trans hnone
  rw [hwrites, society_view hbystand, society_create hfree hpair, ← society_created h]
  exact congrArg (Society.tie · row.pair _) (society_bystands trivial)

theorem inviterOf_redeems {token : String} {invite : Invite} {inviter : User}
    (htoken : dto.token host = some token) (h : Redeems host dto ids w token invite inviter) :
    inviterOf host dto w = some invite.inviterId := by
  have hfound : w.inviteByToken token = some invite := h.found
  rw [inviterOf, htoken, Option.bind_some, hfound, Option.map_some]

-- The inviter has been there before.
theorem member_of_redeems (hid : w.users.find? ids.user = none) {token : String}
    {invite : Invite} {inviter : User} (h : Redeems host dto ids w token invite inviter) :
    w.society.member invite.inviterId := by
  have hinviter := h.inviter_found
  rw [find?_created hid, if_neg h.distinct.symm] at hinviter
  exact Option.isSome_of_eq_some hinviter

theorem admits_of_needs (hfree : Free host dto ids w)
    (hreferral : ∀ token, dto.token host = some token →
      ∃ invite inviter, Redeems host dto ids w token invite inviter) : admits host dto w := by
  refine decide_eq_true ⟨Option.isNone_iff_eq_none.mpr hfree.email,
    Option.isNone_iff_eq_none.mpr hfree.username, ?_⟩
  cases htoken : dto.token host with
  | none => rfl
  | some token =>
      obtain ⟨invite, inviter, h⟩ := hreferral token htoken
      have hfound : w.inviteByToken token = some invite := h.found
      rw [Option.all_some, hfound, Option.any_some]
      exact decide_eq_true ⟨h.pending, h.unexpired, h.email_matches⟩

theorem redeems_of_opened (hid : w.users.find? ids.user = none)
    (hfriendship : w.friendships.find? ids.friendship = none) {token : String} {invite : Invite}
    (hfound : w.inviteByToken token = some invite)
    (hopened : opened host (newUser host dto ids.user).email w invite)
    (hmember : w.society.member invite.inviterId) :
    ∃ inviter, Redeems host dto ids w token invite inviter := by
  obtain ⟨inviter, hinviter⟩ := Option.isSome_iff_exists.mp hmember
  obtain ⟨pending, unexpired, email_matches⟩ := of_decide_eq_true hopened
  exact ⟨inviter,
    redeems_of_found hid hfriendship hfound pending unexpired email_matches hinviter⟩

-- What `register` needs is what it has to bring and what the society asks for.
theorem needs_of_outcome (hfriendship : w.friendships.find? ids.friendship = none)
    {S : Society} (h : w.society.outcome (joining host dto ids w) = some S) :
    Free host dto ids w ∧ ∀ token, dto.token host = some token →
      ∃ invite inviter, Redeems host dto ids w token invite inviter := by
  by_cases hadmits : admits host dto w
  · rw [joining, if_pos hadmits] at h
    obtain ⟨email, username, htokens⟩ := of_decide_eq_true hadmits
    obtain ⟨hnew, hhost⟩ := Option.ite_none_left_eq_some.mp h
    have hid : w.users.find? ids.user = none := by simpa [World.society] using hnew
    refine ⟨⟨hid, Option.isNone_iff_eq_none.mp email, Option.isNone_iff_eq_none.mp username⟩, ?_⟩
    intro token htoken
    rw [htoken, Option.all_some, Option.any_eq_true_iff_get] at htokens
    obtain ⟨hsome, hopened⟩ := htokens
    have hfound : w.inviteByToken token = some ((w.inviteByToken token).get hsome) :=
      (Option.some_get hsome).symm
    rw [inviterOf, htoken, Option.bind_some, hfound, Option.map_some] at hhost
    obtain ⟨hmember, _⟩ := Option.ite_none_right_eq_some.mp hhost
    obtain ⟨inviter, hredeems⟩ := redeems_of_opened hid hfriendship hfound hopened hmember
    exact ⟨_, inviter, hredeems⟩
  · rw [joining, if_neg hadmits] at h
    cases h

-- A registration that has what it needs joins its user.
theorem register_joins (hclosed : w.society.Closed) (hfree : Free host dto ids w)
    (hreferral : ∀ token, dto.token host = some token →
      ∃ invite inviter, Redeems host dto ids w token invite inviter) :
    Refines (register host dto ids) (joining host dto ids w) w := by
  have hnew : ¬w.society.member ids.user := by simp [World.society, hfree.id]
  rw [joining, if_pos (admits_of_needs hfree hreferral)]
  obtain ⟨w', hrun, hmember, hafter⟩ : ∃ w', (register host dto ids).alone w =
      (issueTokens host (newUser host dto ids.user)).alone w' ∧
        (w'.users.find? ids.user).isSome ∧
          w.society.outcome (.join ids.user (inviterOf host dto w)) = some w'.society := by
    have hcreated : (created host dto ids w).society.member ids.user := by
      rw [society_created hfree]
      exact Society.member_welcome_self w.society ids.user
    cases htoken : dto.token host with
    | none =>
        refine ⟨_, register_alone_plain hfree htoken, hcreated, ?_⟩
        rw [society_created hfree, inviterOf, htoken]
        exact if_neg hnew
    | some token =>
        obtain ⟨invite, inviter, hredeems⟩ := hreferral token htoken
        have hredeemed := society_redeemed hclosed hfree hredeems
        have hhost := member_of_redeems hfree.id hredeems
        refine ⟨_, register_alone_referral hfree htoken hredeems, ?_, ?_⟩
        · exact isSome_user_view hcreated _
        · rw [view_append, society_view, hredeemed, inviterOf_redeems htoken hredeems]
          · exact (if_neg hnew).trans (if_pos hhost)
          · intro wr hwr
            obtain ⟨event, _, rfl⟩ := List.mem_map.mp hwr
            trivial
  rw [issueTokens_alone hmember] at hrun
  refine refines_some hrun (hafter.trans ?_)
  have hbystand : Bystands
      (sessionWrite ids.user (some (refreshHash host ids.user w'.clock))) := trivial
  exact congrArg some (society_bystands hbystand).symm

theorem register_refines (hclosed : w.society.Closed)
    (hfriendship : w.friendships.find? ids.friendship = none) :
    Refines (register host dto ids) (joining host dto ids w) w := by
  cases houtcome : w.society.outcome (joining host dto ids w) with
  | some S =>
      obtain ⟨hfree, hreferral⟩ := needs_of_outcome hfriendship houtcome
      exact register_joins hclosed hfree hreferral
  | none =>
      rcases register_needs host dto ids w with ⟨hfails, hsame⟩ | ⟨hfree, hreferral⟩
      · rw [Refines, Society.attempt_none houtcome, tried, hfails, hsame]
      · exact register_joins hclosed hfree hreferral

end Register

namespace FriendshipCall

-- Whether the call goes through, and what it leaves behind.
def attempt (host : Host) : FriendshipCall → World → Bool × World
  | .request requesterId addresseeId newId, w =>
      tried (FriendshipsService.request requesterId addresseeId newId) w
  | .accept userId friendshipId, w => tried (FriendshipsService.accept userId friendshipId) w
  | .block userId otherUserId newId, w =>
      tried (FriendshipsService.block userId otherUserId newId) w
  | .remove userId friendshipId, w => tried (FriendshipsService.remove userId friendshipId) w
  | .register dto ids, w => tried (AuthService.register host dto ids) w
  | .wait elapsed, w => (true, Backend.happen Stmt elapsed w)

-- What the call is about, for those who know neither rows nor ids.
def deed (host : Host) : FriendshipCall → World → Deed
  | .request requesterId addresseeId _, _ => .ask requesterId addresseeId
  | .accept userId friendshipId, w =>
      (w.friendships.find? friendshipId).elim .stray fun f => .accept userId f.pair
  | .block userId otherUserId _, _ => .block userId otherUserId
  | .remove userId friendshipId, w =>
      (w.friendships.find? friendshipId).elim .stray fun f => .remove userId f.pair
  | .register dto ids, w => joining host dto ids w
  | .wait _, _ => .wait

-- A new row gets a new CUID.
def Fresh (call : FriendshipCall) (w : World) : Prop :=
  ∀ id, call.newId = some id → w.friendships.find? id = none

theorem attempt_after (host : Host) (call : FriendshipCall) (w : World) :
    (call.attempt host w).2 = call.after host w := by
  cases call <;> rfl

end FriendshipCall

structure Sound (w : World) : Prop where
  onePerPair : OnePerPair w
  closed : w.society.Closed

theorem missing_refines {α : Type} {w : World} {id : Id} {f : Friendship → Request α}
    (h : w.friendships.find? id = none) :
    Refines (do
      let found ← prisma (.friendshipFindUnique id)
      let row ← Prog.expect found (.notFound "Friendship not found")
      f row) .stray w := by
  have hfind : Stmt.exec (.friendshipFindUnique id) w = .ok (none, []) := by rw [Stmt.exec, h, ask]
  exact refines_none ((Prog.alone_query hfind).trans (Prog.alone_expect_none rfl)) rfl

-- A request about a row by its id.
theorem found_refines {α : Type} {w : World} {id : Id} {p : Request α} {deed : Friendship → Deed}
    (hmissing : w.friendships.find? id = none → Refines p .stray w)
    (hfound : ∀ f ∈ w.friendships.rows, f.id = id → Refines p (deed f) w) :
    Refines p ((w.friendships.find? id).elim .stray deed) w := by
  cases h : w.friendships.find? id with
  | none => exact hmissing h
  | some f => exact hfound f (Table.mem_of_find? h) (Table.key_of_find? h)

theorem attempt_refines (host : Host) {call : FriendshipCall} {w : World} (h : Sound w)
    (hfresh : call.Fresh w) : w.society.attempt (call.deed host w) =
      ((call.attempt host w).1, (call.attempt host w).2.society) := by
  cases call with
  | request requesterId addresseeId newId => exact request_refines (hfresh newId rfl)
  | accept userId friendshipId =>
      refine found_refines missing_refines fun f hf hid => ?_
      subst hid
      exact accept_refines h.onePerPair hf
  | block userId otherUserId newId => exact block_refines h.onePerPair (hfresh newId rfl)
  | remove userId friendshipId =>
      refine found_refines missing_refines fun f hf hid => ?_
      subst hid
      exact remove_refines h.onePerPair hf
  | register dto ids => exact register_refines h.closed (hfresh ids.friendship rfl)
  | wait elapsed => rfl

theorem simulates_society (host : Host) : Serving.Simulates (FriendshipCall.attempt host)
    Society.attempt (FriendshipCall.deed host) World.society Sound FriendshipCall.Fresh where
  keeps {call w} h hfresh := by
    constructor
    · rw [FriendshipCall.attempt_after]
      exact (h.onePerPair.blockInv.after host fun _ _ hab => hab.elim).onePerPair
    · have hclosed := h.closed.attempt (call.deed host w)
      rwa [attempt_refines host h hfresh] at hclosed
  answers h hfresh := attempt_refines host h hfresh

end SideQuest
