import SideQuest.Invites.Requests
import SideQuest.Lib.Alone

-- The states of an invite: pending at first, then cancelled or accepted for good.

namespace SideQuest

open ReadCommitted InvitesService AuthService

inductive InviteStatus.Moves : InviteStatus → InviteStatus → Prop where
  | stay (status : InviteStatus) : Moves status status
  | cancel : Moves .PENDING .CANCELLED
  | accept : Moves .PENDING .ACCEPTED

theorem InviteStatus.Moves.trans {a b c : InviteStatus} (h : a.Moves b) (h' : b.Moves c) :
    a.Moves c := by
  cases h with
  | stay => exact h'
  | cancel =>
      cases h'
      exact .cancel
  | accept =>
      cases h'
      exact .accept

-- Every invite is still there, and its status has moved as it may.
def InvitesMove (w w' : World) : Prop :=
  ∀ id inv, w.invites.find? id = some inv →
    ∃ inv', w'.invites.find? id = some inv' ∧ inv.status.Moves inv'.status

theorem InvitesMove.of_invites {w w' : World} (h : w'.invites = w.invites) : InvitesMove w w' := by
  intro id inv hfound
  exact ⟨inv, h ▸ hfound, .stay _⟩

theorem InvitesMove.trans {w w' w'' : World} (h : InvitesMove w w') (h' : InvitesMove w' w'') :
    InvitesMove w w'' := by
  intro id inv hfound
  obtain ⟨inv', hfound', hmove⟩ := h id inv hfound
  obtain ⟨inv'', hfound'', hmove'⟩ := h' id inv' hfound'
  exact ⟨inv'', hfound'', hmove.trans hmove'⟩

-- An update moves the one status that it writes.
theorem InvitesMove.update {w w' : World} {id : Id} {d : InviteUpdate}
    (hw' : w'.invites = w.invites.modify id d.apply d.id_apply)
    (h : ∀ inv, w.invites.find? id = some inv → inv.status.Moves d.status) : InvitesMove w w' := by
  intro id' inv hfound
  rw [hw', Table.find?_modify]
  by_cases hid : id' = id
  · subst hid
    have hmove := h inv hfound
    exact ⟨d.apply inv, by simp [hfound], hmove⟩
  · exact ⟨inv, by simpa [hid] using hfound, .stay _⟩

theorem InvitesMove.cancelAll {w : World} {pending : List Invite}
    (h : ∀ i ∈ pending, ∀ inv, w.invites.find? i.id = some inv → inv.status.Moves .CANCELLED) :
    InvitesMove w
      (view Stmt w (pending.map fun i => .inviteUpdate i.id { status := .CANCELLED })) := by
  induction pending generalizing w with
  | nil => exact .of_invites rfl
  | cons i rest ih =>
      have hfirst : InvitesMove w (w.apply (.inviteUpdate i.id { status := .CANCELLED })) :=
        .update rfl (h i List.mem_cons_self)
      refine hfirst.trans (ih fun i' hi' inv hfound => ?_)
      simp only [World.apply, Table.find?_modify] at hfound
      split at hfound
      · obtain ⟨before, _, rfl⟩ := Option.map_eq_some_iff.mp hfound
        exact .stay _
      · exact h i' (List.mem_cons_of_mem _ hi') inv hfound

-- The update of `cancel` finds the invite not redeemed.
def cancelsUnredeemed : Guard Stmt World := fun _ _ st w =>
  match st with
  | .inviteCancel id => (w.invites.find? id).map Invite.status ≠ some .ACCEPTED
  | _ => true

def lifecycleContract : Contract Stmt World Write where
  inv _ := True
  guar s s' := InvitesMove s.db s'.db
  guard := cancelsUnredeemed
  guar_refl _ := .of_invites rfl
  guar_trans := .trans

theorem lifecycle_commit {s : Store World Write} {me : ℕ} {ws : List Write}
    (h : InvitesMove s.db (view Stmt s.db ws)) : lifecycleContract.rules.Commits me s ws := by
  refine ⟨trivial, ?_⟩
  show InvitesMove _ _
  rwa [Store.commit_db]

-- The invite that `cancel` has read as pending was pending or has been cancelled since.
theorem wp_cancel_lifecycle (me : ℕ) (inviterId inviteId : Id) (s : Store World Write) :
    lifecycleContract.rules.wp me (fun _ _ => True) (cancel inviterId inviteId) s := by
  refine wp_cancel fun s₁ s' inv _ hfound hpending hr hguard => lifecycle_commit ?_
  refine .update rfl fun inv' hfound' => ?_
  obtain ⟨row, hrow, hmove⟩ := hr.2.1 inviteId inv hfound
  obtain rfl : row = inv' := Option.some.inj (hrow.symm.trans hfound')
  have hopen : row.status ≠ .ACCEPTED := by
    have hstatus : (s'.db.invites.find? inviteId).map Invite.status ≠ some .ACCEPTED :=
      of_decide_eq_true hguard
    simpa [hrow] using hstatus
  rw [hpending] at hmove
  generalize row.status = status at hmove hopen
  cases hmove with
  | stay => exact .cancel
  | cancel => exact .stay _
  | accept => exact absurd rfl hopen

section Requests

variable {R : Rules Stmt} {me : ℕ}
  (hcommit : ∀ {s : Store World Write} {ws : List Write}, R.inv s →
    InvitesMove s.db (view Stmt s.db ws) → R.Commits me s ws)

include hcommit

theorem wp_createInvite_lifecycle (host : Host) (inviterId id : Id) (rawEmail token : String)
    (s : Store World Write) :
    R.wp me (fun _ _ => True) (createInvite host inviterId rawEmail id token) s := by
  apply wp_createInvite
  · intro s' pending hs' hpending
    refine hcommit hs' (.cancelAll fun i hi inv hfound => ?_)
    obtain ⟨hrow, hstatus⟩ := hpending i hi
    obtain rfl : i = inv := Option.some.inj (hrow.symm.trans hfound)
    rw [hstatus]
    exact .cancel
  · intro s' hs' _ hfree _ _
    refine hcommit hs' fun id' inv hfound => ⟨inv, ?_, .stay _⟩
    have hne : id ≠ id' := by
      rintro rfl
      rw [hfree] at hfound
      cases hfound
    exact (Table.find?_insert_ne _ hne).trans hfound

theorem registerCommits_lifecycle (host : Host) (dto : RegisterDto) (ids : FreshIds) :
    RegisterCommits R me host dto ids where
  emits _ _ hs := hcommit hs (.of_invites rfl)
  plain _ _ create _ := hcommit (R.rely_inv create.to_next) (.of_invites rfl)
  referral token s s' t _ := by
    refine hcommit (R.rely_inv t.award.to_commit)
      (.update (t.invites_view s'.db) fun inv hfound => ?_)
    obtain ⟨row, hrow, hpending, _⟩ := t.claimable.2.2.2
    obtain rfl : row = inv := Option.some.inj (hrow.symm.trans hfound)
    rw [hpending]
    exact .accept
  session _ _ hs _ := hcommit hs (.of_invites rfl)

end Requests

-- The requests that write invites.
inductive InviteRequest (host : Host) : Request Unit → Prop where
  | createInvite (inviterId : Id) (rawEmail : String) (id : Id) (token : String) :
      InviteRequest host (createInvite host inviterId rawEmail id token).void
  | cancel (inviterId inviteId : Id) : InviteRequest host (cancel inviterId inviteId)
  | register (dto : RegisterDto) (ids : FreshIds) :
      InviteRequest host (register host dto ids).void

theorem InviteRequest.wp_lifecycle {host : Host} {p : Request Unit} (hp : InviteRequest host p)
    (me : ℕ) (s : Store World Write) : lifecycleContract.rules.wp me (fun _ _ => True) p s := by
  have hcommit {s : Store World Write} {ws : List Write} (_ : lifecycleContract.rules.inv s)
      (h : InvitesMove s.db (view Stmt s.db ws)) : lifecycleContract.rules.Commits me s ws :=
    lifecycle_commit h
  cases hp with
  | createInvite inviterId rawEmail id token =>
      exact Rules.wp_void (wp_createInvite_lifecycle hcommit host inviterId id rawEmail token s)
  | cancel inviterId inviteId => exact wp_cancel_lifecycle me inviterId inviteId s
  | register dto ids =>
      exact Rules.wp_void (wp_register (registerCommits_lifecycle hcommit host dto ids))

-- On its own `cancel` finds the invite as it has read it.
theorem InviteRequest.alone_lifecycle {host : Host} {p : Request Unit} (hp : InviteRequest host p)
    {w w' : World} (h : InvitesMove w w') : InvitesMove w (p.alone w').2 := by
  let R : Rules Stmt := Rules.alone (InvitesMove w)
  have hcommit {s : Store World Write} {ws : List Write} (hs : R.inv s)
      (hmove : InvitesMove s.db (view Stmt s.db ws)) : R.Commits 0 s ws := by
    refine ⟨?_, trivial⟩
    show InvitesMove w (s.commit Stmt 0 ws).db
    rw [Store.commit_db]
    exact InvitesMove.trans hs hmove
  have halone {q : Request Unit} (hq : R.wp 0 (fun _ _ => True) q ⟨w', []⟩) :
      InvitesMove w (q.alone w').2 := (Rules.wp_alone h hq).1
  cases hp with
  | createInvite inviterId rawEmail id token =>
      exact halone (Rules.wp_void (wp_createInvite_lifecycle hcommit host inviterId id rawEmail token _))
  | cancel inviterId inviteId =>
      refine halone (wp_cancel fun s₁ s' inv _ hfound hpending hr _ => ?_)
      have hstore : s' = s₁ := hr.2
      refine hcommit (R.rely_inv hr) (.update rfl fun inv' hfound' => ?_)
      rw [hstore, hfound] at hfound'
      rw [← Option.some.inj hfound', hpending]
      exact .cancel
  | register dto ids =>
      exact halone (Rules.wp_void (wp_register (registerCommits_lifecycle hcommit host dto ids)))

-- As long as no `cancel` hits an invite that has been redeemed since it was read, the
-- status of every invite only moves from pending, once. One request at a time needs no
-- such condition.
theorem invitesMove_of_reaches (host : Host) (w : World) :
    (∀ s s' : System Stmt World Write ApiError,
      System.Reaches (InviteRequest host) cancelsUnredeemed (System.init w) s →
        System.Reaches (InviteRequest host) cancelsUnredeemed s s' →
          InvitesMove s.store.db s'.store.db) ∧
    ∀ calls : List (ℕ × Request Unit), (∀ call ∈ calls, InviteRequest host call.2) →
      InvitesMove w (oneByOne servedAfter calls w) := by
  constructor
  · intro s s' h h'
    have hrun {s₁ s₂ : System Stmt World Write ApiError} (hs : s₁.Safe lifecycleContract)
        (hr : System.Reaches (InviteRequest host) cancelsUnredeemed s₁ s₂) :=
      System.Reaches.safe (C := lifecycleContract) (fun p hp me st _ => hp.wp_lifecycle me st)
        (fun _ _ _ => ⟨trivial, .of_invites rfl⟩) hs hr
    have hsafe := (hrun (System.init_safe trivial) h).1
    exact (hrun hsafe h').2
  · intro calls hcalls
    have hany : EachMeets servedAfter (fun _ _ => True) calls w :=
      eachMeets_of_forall (fun _ _ => trivial) calls w
    have hcall : ∀ call ∈ calls, ∀ db, InvitesMove w db → True →
        InvitesMove w (servedAfter call db) := fun call hmem db hdb _ =>
      (hcalls call hmem).alone_lifecycle (hdb.trans (.of_invites rfl))
    exact oneByOne_inv hcall (.of_invites rfl) hany

def statusOf (inviteId : Id) (s : System Stmt World Write ApiError) : Option InviteStatus :=
  (s.store.db.invites.find? inviteId).map Invite.status

-- A redeemed invite that its sender then tries to cancel.
theorem invitesMove_redeemed : ∃ s s' : System Stmt World Write ApiError,
    InvitesMove s.store.db s'.store.db ∧ statusOf 1 s = some .ACCEPTED := by
  let registering : Request Unit := (register .plain (guest "guest") ⟨2, 1⟩).void
  have hps : ∀ p : Request Unit, .spawn p ∈ System.interleave [registering] (List.replicate 20 0) ++
      (System.interleave [cancel 1 1] [1] : List (Choice Stmt ApiError ℕ)) →
        InviteRequest .plain p := by
    intro p hp
    simp only [List.mem_append, System.spawn_mem_interleave, List.mem_singleton] at hp
    rcases hp with rfl | rfl
    · exact .register _ _
    · exact .cancel _ _
  obtain ⟨s, s', h, h', hobs⟩ := System.exists_reaches_of_play_play (InviteRequest .plain)
    cancelsUnredeemed (System.init invited) _ _ (fun s _ => statusOf 1 s) (some .ACCEPTED) hps
    (by decide +kernel)
  exact ⟨s, s', (invitesMove_of_reaches .plain invited).1 s s' h h', hobs⟩

-- The sender reads the invite as pending, the guest redeems it, and the update of
-- `cancel` comes last: the friendship and the 50 XP stay, the invite is cancelled.
theorem cancelled_after_redemption : ∃ s s' : System Stmt World Write ApiError,
    System.Reaches (InviteRequest .plain) Guard.none (System.init invited) s ∧
      System.Reaches (InviteRequest .plain) Guard.none s s' ∧
        (statusOf 1 s, (s.store.db.users.find? 1).map User.xp) = (some .ACCEPTED, some 50) ∧
          ¬InvitesMove s.store.db s'.store.db := by
  let registering : Request Unit := (register .plain (guest "guest") ⟨2, 1⟩).void
  have hps : ∀ p : Request Unit, .spawn p ∈
      System.interleave [cancel 1 1, registering] (0 :: List.replicate 20 1) ++
        ([.next 0] : List (Choice Stmt ApiError ℕ)) → InviteRequest .plain p := by
    intro p hp
    simp only [List.mem_append, System.spawn_mem_interleave, List.mem_cons, List.not_mem_nil,
      or_false, reduceCtorEq] at hp
    rcases hp with rfl | rfl
    · exact .cancel _ _
    · exact .register _ _
  obtain ⟨s, s', h, h', hobs⟩ := System.exists_reaches_of_play_play (InviteRequest .plain)
    Guard.none (System.init invited) _ _
    (fun s s' => ((statusOf 1 s, (s.store.db.users.find? 1).map User.xp), statusOf 1 s'))
    ((some .ACCEPTED, some 50), some .CANCELLED) hps (by decide +kernel)
  obtain ⟨hs, hs'⟩ := Prod.mk.inj hobs
  refine ⟨s, s', h, h', hs, fun hmoves => ?_⟩
  obtain ⟨inv, hfound, hstatus⟩ := Option.map_eq_some_iff.mp (Prod.mk.inj hs).1
  obtain ⟨inv', hfound', hmove⟩ := hmoves 1 inv hfound
  have hcancelled : inv'.status = .CANCELLED := by simpa [statusOf, hfound'] using hs'
  rw [hstatus, hcancelled] at hmove
  cases hmove

end SideQuest
