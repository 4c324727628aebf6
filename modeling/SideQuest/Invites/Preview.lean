import SideQuest.Auth.Sessions
import SideQuest.Invites.Lifecycle

-- The public preview of an invite agrees with the registration that redeems it.

namespace SideQuest

open ReadCommitted InvitesService AuthService

-- The addresses of invites are stored normalised, and their senders exist.
structure InvitesSound (host : Host) (w : World) : Prop where
  emails : ∀ i ∈ w.invites.rows, normalizeEmail host i.email = i.email
  inviters : ∀ i ∈ w.invites.rows, (w.users.find? i.inviterId).isSome

section Sound

variable {host : Host} {w w' : World}

theorem InvitesSound.of_rows (h : InvitesSound host w)
    (hrows : ∀ i ∈ w'.invites.rows, ∃ j ∈ w.invites.rows,
      j.email = i.email ∧ j.inviterId = i.inviterId)
    (husers : ∀ id, (w.users.find? id).isSome → (w'.users.find? id).isSome) :
    InvitesSound host w' where
  emails i hi := by
    obtain ⟨j, hj, hemail, _⟩ := hrows i hi
    rw [← hemail]
    exact h.emails j hj
  inviters i hi := by
    obtain ⟨j, hj, _, hinviter⟩ := hrows i hi
    rw [← hinviter]
    exact husers j.inviterId (h.inviters j hj)

theorem InvitesSound.apply (h : InvitesSound host w) {wr : Write}
    (hcreate : ∀ row, wr = .inviteCreate row →
      normalizeEmail host row.email = row.email ∧ (w.users.find? row.inviterId).isSome) :
    InvitesSound host (w.apply wr) := by
  have husers (id : Id) (hid : (w.users.find? id).isSome) :
      ((w.apply wr).users.find? id).isSome := isSome_user_view hid [wr]
  cases wr with
  | inviteCreate row =>
      obtain ⟨hemail, hinviter⟩ := hcreate row rfl
      constructor
      · intro i hi
        rcases Table.mem_of_mem_insert hi with hi | rfl
        · exact h.emails i hi
        · exact hemail
      · intro i hi
        rcases Table.mem_of_mem_insert hi with hi | rfl
        · exact h.inviters i hi
        · exact hinviter
  | inviteUpdate id d =>
      refine h.of_rows (fun i hi => ?_) husers
      obtain ⟨j, hj, rfl⟩ := List.mem_map.mp hi
      refine ⟨j, hj, ?_⟩
      split <;> exact ⟨rfl, rfl⟩
  | _ => exact h.of_rows (fun i hi => ⟨i, hi, rfl, rfl⟩) husers

theorem InvitesSound.view (h : InvitesSound host w) {ws : List Write}
    (hws : ∀ wr ∈ ws, ∀ row, wr ≠ .inviteCreate row) : InvitesSound host (view Stmt w ws) := by
  induction ws generalizing w with
  | nil => exact h
  | cons wr ws ih =>
      have hhead : ∀ row, wr ≠ .inviteCreate row := hws wr List.mem_cons_self
      exact ih (h.apply fun row he => absurd he (hhead row))
        fun wr' hwr' => hws wr' (List.mem_cons_of_mem _ hwr')

end Sound

def soundContract (host : Host) : Contract Stmt World Write :=
  .ofInv (fun s => InvitesSound host s.db) Guard.none

section Requests

variable {host : Host} {me : ℕ} {s : Store World Write} {ws : List Write}

theorem sound_commit (h : InvitesSound host (view Stmt s.db ws)) :
    (soundContract host).rules.Commits me s ws := by
  refine ⟨?_, trivial⟩
  show InvitesSound host _
  rwa [Store.commit_db]

theorem registerCommits_sound (me : ℕ) (host : Host) (dto : RegisterDto) (ids : FreshIds) :
    RegisterCommits (soundContract host).rules me host dto ids where
  emits s e h := sound_commit (InvitesSound.view h (by simp))
  plain s s' create _ := by
    have h : InvitesSound host s'.db := (soundContract host).rules.rely_inv create.to_next
    exact sound_commit (h.view (by simp))
  referral token s s' t _ := by
    have h : InvitesSound host s'.db := (soundContract host).rules.rely_inv t.award.to_commit
    refine sound_commit (h.view fun wr hwr row => ?_)
    rintro rfl
    rcases t.befriend.made with ⟨_, _, hw⟩ | ⟨_, _, _, hw⟩ <;>
      simp [Redeeming.writes, Awarding.writes, Claiming.write, hw] at hwr
  session s _ h _ := sound_commit (InvitesSound.view h (by simp))

theorem InviteRequest.wp_sound (hidem : ∀ email, normalizeEmail host (normalizeEmail host email) =
      normalizeEmail host email) {p : Request Unit} (hp : InviteRequest host p) (me : ℕ)
    (s : Store World Write) : (soundContract host).rules.wp me (fun _ _ => True) p s := by
  cases hp with
  | createInvite inviterId rawEmail id token =>
      refine Rules.wp_void (wp_createInvite ?_ ?_)
      · intro s' pending h _
        refine sound_commit (InvitesSound.view h fun wr hwr row => ?_)
        rintro rfl
        simp at hwr
      · intro s' h _ _ _ hinviter
        have hcreated : InvitesSound host (s'.db.apply (.inviteCreate
            (newInvite host inviterId rawEmail id token s'.db.clock))) := by
          refine InvitesSound.apply h fun row hrow => ?_
          cases hrow
          exact ⟨hidem rawEmail, hinviter⟩
        exact sound_commit hcreated
  | cancel inviterId inviteId =>
      refine wp_cancel fun s₁ s' inv _ _ _ hr _ => ?_
      have h : InvitesSound host s'.db := (soundContract host).rules.rely_inv hr
      exact sound_commit (h.view (by simp))
  | register dto ids =>
      exact Rules.wp_void (wp_register (registerCommits_sound me host dto ids))

end Requests

section Agreement

variable {host : Host} {w : World} {token email : String} {dto : RegisterDto} {ids : FreshIds}

-- The preview is valid and shows this address.
def Previews (w : World) (token email : String) : Prop :=
  ∃ preview, (previewToken token).alone w = (.ok preview, w) ∧ preview.valid = true ∧
    preview.invitedEmail = some email

theorem not_previews_of_invalid {result : InviteTokenPreview} (hinvalid : result.valid = false) :
    ¬ ∃ preview, (pure result : Request InviteTokenPreview).alone w = (.ok preview, w) ∧
      preview.valid = true ∧ preview.invitedEmail = some email := by
  rintro ⟨preview, halone, hvalid, _⟩
  cases halone
  rw [hinvalid] at hvalid
  cases hvalid

theorem previews_iff : Previews w token email ↔ ∃ invite, w.inviteByToken token = some invite ∧
    invite.status = .PENDING ∧ w.clock - invite.sentAt ≤ INVITE_EXPIRY_MS ∧
      invite.email = email := by
  have hfind : Stmt.exec (.inviteFindByToken token) w = .ok (w.inviteByToken token, []) := rfl
  have hclock : Stmt.exec .now w = .ok (w.clock, []) := rfl
  have hinviter (id : Id) : Stmt.exec (.userFindUnique id) w = .ok (w.users.find? id, []) := rfl
  unfold Previews previewToken
  rw [Prog.alone_query hfind]
  cases hinvite : w.inviteByToken token with
  | none =>
      refine iff_of_false (not_previews_of_invalid rfl) ?_
      rintro ⟨invite, hsome, _⟩
      cases hsome
  | some invite =>
      dsimp only
      rw [Prog.alone_query hclock]
      by_cases hpending : invite.status = .PENDING
      · rw [if_neg (not_not.mpr hpending)]
        by_cases hexpired : w.clock - invite.sentAt > INVITE_EXPIRY_MS
        · rw [if_pos (decide_eq_true hexpired)]
          refine iff_of_false (not_previews_of_invalid rfl) ?_
          rintro ⟨found, hfound, _, hfresh, _⟩
          cases hfound
          exact absurd hfresh (not_le.mpr hexpired)
        · rw [if_neg (fun h => hexpired (of_decide_eq_true h)), Prog.alone_query (hinviter _)]
          refine ⟨?_, ?_⟩
          · rintro ⟨preview, halone, _, hemail⟩
            cases halone
            exact ⟨invite, rfl, hpending, not_lt.mp hexpired, Option.some.inj hemail⟩
          · rintro ⟨found, hfound, _, _, rfl⟩
            cases hfound
            exact ⟨_, rfl, rfl, rfl⟩
      · rw [if_pos hpending]
        refine iff_of_false (not_previews_of_invalid rfl) ?_
        rintro ⟨found, hfound, hstatus, _⟩
        cases hfound
        exact absurd hstatus hpending

variable (hidem : ∀ email, normalizeEmail host (normalizeEmail host email) =
    normalizeEmail host email) (hw : InvitesSound host w)
  (hid : w.users.find? ids.user = none) (hfriendship : w.friendships.find? ids.friendship = none)

include hidem hw hid hfriendship

-- What a redemption needs besides a free address.
theorem redeems_iff : (∃ invite inviter, Redeems host dto ids w token invite inviter) ↔
    Previews w token (normalizeEmail host dto.email) := by
  rw [previews_iff]
  constructor
  · rintro ⟨invite, inviter, h⟩
    have hinvite : invite ∈ w.invites.rows := List.mem_of_find?_eq_some h.found
    refine ⟨invite, h.found, h.pending, h.unexpired, ?_⟩
    have hemail := h.email_matches
    rw [hw.emails invite hinvite] at hemail
    exact hemail.trans (hidem dto.email)
  · rintro ⟨invite, found, pending, unexpired, hemail⟩
    have hinvite : invite ∈ w.invites.rows := List.mem_of_find?_eq_some found
    obtain ⟨inviter, hinviter⟩ := Option.isSome_iff_exists.mp (hw.inviters invite hinvite)
    refine ⟨invite, inviter,
      redeems_of_found hid hfriendship found pending unexpired ?_ hinviter⟩
    rw [hemail]
    rfl

theorem register_iff_previews (htoken : dto.token host = some token)
    (husername : w.userByUsername dto.username = none) :
    ((register host dto ids).alone w).1.isOk = true ↔
      Previews w token (normalizeEmail host dto.email) ∧
        w.userByEmail (normalizeEmail host dto.email) = none := by
  constructor
  · intro hok
    rcases register_needs host dto ids w with ⟨herror, _⟩ | ⟨hfree, hneeds⟩
    · rw [hok] at herror
      cases herror
    · exact ⟨(redeems_iff hidem hw hid hfriendship).mp (hneeds token htoken), hfree.email⟩
  · rintro ⟨hpreviews, hemail⟩
    have hfree : Free host dto ids w := ⟨hid, hemail, husername⟩
    obtain ⟨invite, inviter, h⟩ := (redeems_iff hidem hw hid hfriendship).mpr hpreviews
    rw [register_alone_referral hfree htoken h, issueTokens_alone]
    · rfl
    · exact isSome_user_view (Option.isSome_of_eq_some h.invitee_found) _

end Agreement

-- Somebody sets the status of an account.
def StatusChange (w w' : World) : Prop :=
  ∃ id status, w' = { w with
    users := w.users.modify id (fun user => { user with status := status }) fun _ => rfl }

theorem InvitesSound.statusChange {host : Host} {w w' : World} (h : InvitesSound host w)
    (hchange : StatusChange w w') : InvitesSound host w' := by
  obtain ⟨id, status, rfl⟩ := hchange
  refine h.of_rows (fun i hi => ⟨i, hi, rfl, rfl⟩) fun id' hid' => ?_
  rw [Table.find?_modify]
  split
  · rw [Option.isSome_map]
    exact hid'
  · exact hid'

-- At every point of every run, also while accounts are suspended and deleted: with an
-- unused username a registration with the token commits exactly if the preview shows its
-- address and no account has it.
theorem register_iff_previews_of_reaches (host : Host)
    (hidem : ∀ email, normalizeEmail host (normalizeEmail host email) = normalizeEmail host email)
    {w : World} (hw : InvitesSound host w) {s : System Stmt World Write ApiError}
    (h : System.ReachesAmid (InviteRequest host) Guard.none StatusChange (System.init w) s)
    {token : String} (htrim : host.trim token = token) (hne : token ≠ "") {dto : RegisterDto}
    (htoken : dto.inviteToken = some token)
    (husername : s.store.db.userByUsername dto.username = none) {ids : FreshIds}
    (hid : s.store.db.users.find? ids.user = none)
    (hfriendship : s.store.db.friendships.find? ids.friendship = none) :
    ((register host dto ids).alone s.store.db).1.isOk = true ↔
      Previews s.store.db token (normalizeEmail host dto.email) ∧
        s.store.db.userByEmail (normalizeEmail host dto.email) = none := by
  have hsafe := System.ReachesAmid.safe (C := soundContract host)
    (fun p hp me st _ => hp.wp_sound hidem me st)
    (fun _ _ hst => ⟨hst.of_rows (fun i hi => ⟨i, hi, rfl, rfl⟩) fun _ hid => hid, trivial⟩)
    (fun _ _ hst hchange => ⟨InvitesSound.statusChange hst hchange, trivial⟩)
    (System.init_safe hw) h
  refine register_iff_previews hidem hsafe.inv hid hfriendship ?_ husername
  rw [RegisterDto.token, htoken, Option.map_some, htrim]
  exact Option.filter_eq_some_iff.mpr ⟨rfl, decide_eq_true hne⟩

-- Nobody has been invited yet.
def uninvited : World := { World.empty with users := Table.empty.insert sender }

def invitesGuest : Request Unit := (createInvite .plain 1 "guest@example.com" 1 "token").void

def suspendSender (w : World) : World :=
  { w with users := w.users.modify 1 (fun user => { user with status := .SUSPENDED }) fun _ => rfl }

-- The sender is suspended after the invite.
theorem register_iff_previews_suspended : ∃ s : System Stmt World Write ApiError,
    (((register .plain (guest "guest") ⟨2, 1⟩).alone s.store.db).1.isOk = true ↔
      Previews s.store.db "token" (normalizeEmail .plain "guest@example.com") ∧
        s.store.db.userByEmail (normalizeEmail .plain "guest@example.com") = none) ∧
    ((register .plain (guest "guest") ⟨2, 1⟩).alone s.store.db).1.isOk = true := by
  have hps : ∀ p ∈ [invitesGuest], InviteRequest .plain p := by
    intro p hp
    obtain rfl := List.mem_singleton.mp hp
    exact .createInvite 1 _ 1 _
  obtain ⟨s, hs, hobs⟩ := System.exists_reaches_of_interleave (InviteRequest .plain) Guard.none
    (System.init uninvited) [invitesGuest] (List.replicate 6 0)
    (fun s => (s.threads.all fun t => t.held.isEmpty,
      ((register .plain (guest "guest") ⟨2, 1⟩).alone (suspendSender s.store.db)).1.isOk,
      ((suspendSender s.store.db).userByUsername "guest").isNone,
      ((suspendSender s.store.db).users.find? 2).isNone, (s.store.db.friendships.find? 1).isNone))
    (true, true, true, true, true) hps (by decide +kernel)
  simp only [Prod.mk.injEq, List.all_eq_true, List.isEmpty_iff, Option.isNone_iff_eq_none] at hobs
  obtain ⟨hidle, hok, husername, hid, hfriendship⟩ := hobs
  have hrun : System.ReachesAmid (InviteRequest .plain) Guard.none StatusChange
      (System.init uninvited) { s with store := { s.store with db := suspendSender s.store.db } } := by
    refine .change _ (.run .refl hs) ⟨1, .SUSPENDED, rfl⟩ fun t ht l hl => ?_
    rw [hidle t ht] at hl
    cases hl
  have hw : InvitesSound .plain uninvited := ⟨by decide +kernel, by decide +kernel⟩
  have hne : "token" ≠ "" := by decide
  have htoken : (guest "guest").inviteToken = some "token" := rfl
  exact ⟨_, register_iff_previews_of_reaches .plain (fun _ => rfl) hw hrun rfl hne htoken husername
    hid hfriendship, hok⟩

-- The preview and the registration with the same address disagree.
def Disagree (host : Host) (dto : RegisterDto) (ids : FreshIds) (w : World) : Prop :=
  ¬(Previews w "token" dto.email ↔ ((register host dto ids).alone w).1.isOk = true)

-- The guest registers without the invite, and the preview stays valid. And the guest may
-- redeem the invite with an address in capitals, which the preview does not show.
theorem preview_of_taken_and_capitals :
    (∃ s : System Stmt World Write ApiError,
      System.Reaches (InviteRequest AuthHost.plain.toHost) Guard.none (System.init uninvited) s ∧
        Disagree AuthHost.plain.toHost (guest "another") ⟨3, 2⟩ s.store.db) ∧
    ∃ s : System Stmt World Write ApiError,
      System.Reaches (InviteRequest AuthHost.plain.toHost) Guard.none (System.init uninvited) s ∧
        Disagree AuthHost.plain.toHost { guest "guest" with email := "GUEST@example.com" } ⟨2, 1⟩
          s.store.db := by
  let host : Host := AuthHost.plain.toHost
  let inviting : Request Unit := (createInvite host 1 "guest@example.com" 1 "token").void
  let registering : Request Unit :=
    (register host { guest "guest" with inviteToken := none } ⟨2, 1⟩).void
  have hps : ∀ p ∈ [inviting, registering], InviteRequest host p := by
    intro p hp
    simp only [List.mem_cons, List.not_mem_nil, or_false] at hp
    rcases hp with rfl | rfl
    · exact .createInvite 1 _ 1 _
    · exact .register _ _
  constructor
  · obtain ⟨s, hs, hobs⟩ := System.exists_reaches_of_interleave (InviteRequest host) Guard.none
      (System.init uninvited) [inviting, registering] (List.replicate 6 0 ++ List.replicate 8 1)
      (fun s => (s.store.db.inviteByToken "token", s.store.db.clock,
        ((register host (guest "another") ⟨3, 2⟩).alone s.store.db).1.isOk))
      (some invitation, 0, false) hps (by decide +kernel)
    simp only [Prod.mk.injEq] at hobs
    obtain ⟨hfound, hclock, hrejected⟩ := hobs
    refine ⟨s, hs, fun hiff => ?_⟩
    have hfresh : s.store.db.clock - invitation.sentAt ≤ INVITE_EXPIRY_MS := by
      rw [hclock]
      decide
    have hok := hiff.mp (previews_iff.mpr ⟨invitation, hfound, rfl, hfresh, rfl⟩)
    rw [hrejected] at hok
    cases hok
  · obtain ⟨s, hs, hobs⟩ := System.exists_reaches_of_interleave (InviteRequest host) Guard.none
      (System.init uninvited) [inviting] (List.replicate 6 0)
      (fun s => (s.store.db.inviteByToken "token",
        ((register host { guest "guest" with email := "GUEST@example.com" } ⟨2, 1⟩).alone
          s.store.db).1.isOk))
      (some invitation, true) (fun p hp => hps p (List.mem_cons.mpr (Or.inl
        (List.mem_singleton.mp hp)))) (by decide +kernel)
    simp only [Prod.mk.injEq] at hobs
    obtain ⟨hfound, hok⟩ := hobs
    refine ⟨s, hs, fun hiff => ?_⟩
    obtain ⟨invite, hinvite, _, _, hemail⟩ := previews_iff.mp (hiff.mpr hok)
    rw [hfound] at hinvite
    cases hinvite
    exact absurd hemail (by decide)

end SideQuest
