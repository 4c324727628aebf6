import SideQuest.Invites.Lifecycle

-- The two limits on the invites of a user: so many a day, and one that is pending for an
-- email.

namespace SideQuest

open ReadCommitted InvitesService AuthService

namespace World

-- `day` is the first instant of a UTC day.
def sentOnDay (w : World) (inviterId : Id) (day : Time) : ℕ :=
  w.invites.count fun i => i.inviterId = inviterId ∧ startOfUtcDay i.sentAt = day

def pendingFor (w : World) (inviterId : Id) (email : String) : ℕ :=
  w.invites.count fun i => i.inviterId = inviterId ∧ i.email = email ∧ i.status = .PENDING

end World

structure WithinLimits (w : World) : Prop where
  daily : ∀ inviterId day, w.sentOnDay inviterId day ≤ MAX_INVITES_PER_UTC_DAY
  pending : ∀ inviterId email, w.pendingFor inviterId email ≤ 1

-- The inviter may send one more invite today, and none is pending for the email.
def World.HasRoom (w : World) (inviterId : Id) (email : String) : Prop :=
  w.sentOnDay inviterId (startOfUtcDay w.clock) < MAX_INVITES_PER_UTC_DAY ∧
    w.pendingFor inviterId email = 0

instance (w : World) (inviterId : Id) (email : String) : Decidable (w.HasRoom inviterId email) :=
  inferInstanceAs (Decidable (_ ∧ _))

-- The create of `createInvite` finds room for the invite.
def createsWithRoom : Guard Stmt World := fun _ _ st w =>
  match st with
  | .inviteCreate _ _ email inviterId => w.HasRoom inviterId email
  | _ => true

section Writes

variable {w : World}

theorem sentOnDay_create {row : Invite} (hfree : w.invites.find? row.id = none) (inviterId : Id)
    (day : Time) : (w.apply (.inviteCreate row)).sentOnDay inviterId day =
      w.sentOnDay inviterId day +
        if row.inviterId = inviterId ∧ startOfUtcDay row.sentAt = day then 1 else 0 := by
  have hcount := Table.count_insert hfree fun i : Invite =>
    i.inviterId = inviterId ∧ startOfUtcDay i.sentAt = day
  simp only [decide_eq_true_eq] at hcount
  exact hcount

theorem pendingFor_create {row : Invite} (hfree : w.invites.find? row.id = none) (inviterId : Id)
    (email : String) : (w.apply (.inviteCreate row)).pendingFor inviterId email =
      w.pendingFor inviterId email +
        if row.inviterId = inviterId ∧ row.email = email ∧ row.status = .PENDING then 1 else 0 := by
  have hcount := Table.count_insert hfree fun i : Invite =>
    i.inviterId = inviterId ∧ i.email = email ∧ i.status = .PENDING
  simp only [decide_eq_true_eq] at hcount
  exact hcount

-- A new invite stays within the limits exactly if there is room for it.
theorem withinLimits_create_iff (h : WithinLimits w) {row : Invite}
    (hfree : w.invites.find? row.id = none) (hpending : row.status = .PENDING)
    (hsent : row.sentAt = w.clock) :
    WithinLimits (w.apply (.inviteCreate row)) ↔ w.HasRoom row.inviterId row.email := by
  constructor
  · intro hafter
    have hday := hafter.daily row.inviterId (startOfUtcDay w.clock)
    have hemail := hafter.pending row.inviterId row.email
    rw [sentOnDay_create hfree, if_pos ⟨rfl, by rw [hsent]⟩] at hday
    rw [pendingFor_create hfree, if_pos ⟨rfl, rfl, hpending⟩] at hemail
    exact ⟨by omega, by omega⟩
  · rintro ⟨hday, hemail⟩
    refine ⟨fun inviterId day => ?_, fun inviterId email => ?_⟩
    · have hold := h.daily inviterId day
      rw [sentOnDay_create hfree]
      split
      · rename_i hsame
        obtain ⟨rfl, rfl⟩ := hsame
        rw [hsent]
        omega
      · exact hold
    · have hold := h.pending inviterId email
      rw [pendingFor_create hfree]
      split
      · rename_i hsame
        obtain ⟨rfl, rfl, _⟩ := hsame
        omega
      · exact hold

section Updates

variable {w' : World} {id : Id} {d : InviteUpdate}
  (hw' : w'.invites = w.invites.modify id d.apply d.id_apply)

include hw'

theorem sentOnDay_update (inviterId : Id) (day : Time) :
    w'.sentOnDay inviterId day ≤ w.sentOnDay inviterId day := by
  rw [World.sentOnDay, hw']
  exact Table.count_modify_le _ _ _ _ fun i hi => hi

-- An update makes no invite pending that was not, and sends none.
theorem WithinLimits.update (h : WithinLimits w) (hd : d.status ≠ .PENDING) : WithinLimits w' := by
  refine ⟨fun inviterId day => ?_, fun inviterId email => ?_⟩
  · exact le_trans (sentOnDay_update hw' inviterId day) (h.daily inviterId day)
  · refine le_trans ?_ (h.pending inviterId email)
    rw [World.pendingFor, hw']
    refine Table.count_modify_le _ _ _ _ fun i hi => ?_
    exact absurd (of_decide_eq_true hi).2.2 hd

end Updates

theorem WithinLimits.of_invites (h : WithinLimits w) {w' : World} (hw' : w'.invites = w.invites) :
    WithinLimits w' where
  daily := by
    unfold World.sentOnDay
    rw [hw']
    exact h.daily
  pending := by
    unfold World.pendingFor
    rw [hw']
    exact h.pending

theorem sentOnDay_cancelAll (w : World) (pending : List Invite) (inviterId : Id) (day : Time) :
    (view Stmt w (pending.map fun i => .inviteUpdate i.id { status := .CANCELLED })).sentOnDay
      inviterId day ≤ w.sentOnDay inviterId day := by
  induction pending generalizing w with
  | nil => exact le_refl _
  | cons i rest ih => exact le_trans (ih _) (sentOnDay_update rfl inviterId day)

theorem WithinLimits.cancelAll {pending : List Invite} (h : WithinLimits w) : WithinLimits
    (view Stmt w (pending.map fun i => .inviteUpdate i.id { status := .CANCELLED })) := by
  induction pending generalizing w with
  | nil => exact h
  | cons i rest ih =>
      have hfirst : WithinLimits (w.apply (.inviteUpdate i.id { status := .CANCELLED })) :=
        .update rfl h (by decide)
      exact ih hfirst

end Writes

-- What the requests commit stays within the limits, whoever else is there.
section Requests

variable {R : Rules Stmt} (hinv : ∀ s, R.inv s ↔ WithinLimits s.db) (hguar : ∀ s s', R.guar s s')
  (me : ℕ)

include hinv hguar

theorem limits_commit {s : Store World Write} {ws : List Write}
    (h : WithinLimits (view Stmt s.db ws)) : R.Commits me s ws := by
  refine ⟨(hinv _).mpr ?_, hguar _ _⟩
  rwa [Store.commit_db]

theorem wp_cancel_limits (inviterId inviteId : Id) (s : Store World Write) :
    R.wp me (fun _ _ => True) (cancel inviterId inviteId) s := by
  refine wp_cancel fun s₁ s' inv _ _ _ hr _ => limits_commit hinv hguar me ?_
  exact .update rfl ((hinv _).mp (R.rely_inv hr)) (by decide)

theorem registerCommits_limits (host : Host) (dto : RegisterDto) (ids : FreshIds) :
    RegisterCommits R me host dto ids where
  emits s _ hs := limits_commit hinv hguar me (((hinv s).mp hs).of_invites rfl)
  plain s s' create _ :=
    limits_commit hinv hguar me (((hinv s').mp (R.rely_inv create.to_next)).of_invites rfl)
  referral token s s' t _ := by
    have hs' := (hinv s').mp (R.rely_inv t.award.to_commit)
    exact limits_commit hinv hguar me (.update (t.invites_view s'.db) hs' InviteStatus.noConfusion)
  session s _ hs _ := limits_commit hinv hguar me (((hinv s).mp hs).of_invites rfl)

end Requests

def limitsContract : Contract Stmt World Write :=
  .ofInv (fun s => WithinLimits s.db) createsWithRoom

theorem InviteRequest.wp_limits {host : Host} {p : Request Unit} (hp : InviteRequest host p)
    (me : ℕ) (s : Store World Write) :
    limitsContract.rules.wp me (fun _ _ => True) p s := by
  have hinv : ∀ s : Store World Write, limitsContract.rules.inv s ↔ WithinLimits s.db :=
    fun _ => Iff.rfl
  have hguar : ∀ s s' : Store World Write, limitsContract.rules.guar s s' := fun _ _ => trivial
  cases hp with
  | createInvite inviterId rawEmail id token =>
      refine Rules.wp_void (wp_createInvite ?_ ?_)
      · exact fun s' pending hs' _ => limits_commit hinv hguar me hs'.cancelAll
      · intro s' hs' hguard hfree _ _
        have hroom : s'.db.HasRoom inviterId (normalizeEmail host rawEmail) :=
          of_decide_eq_true hguard
        exact limits_commit hinv hguar me ((withinLimits_create_iff hs' hfree rfl rfl).mpr hroom)
  | cancel inviterId inviteId => exact wp_cancel_limits hinv hguar me inviterId inviteId s
  | register dto ids =>
      exact Rules.wp_void (wp_register (registerCommits_limits hinv hguar me host dto ids))

-- On its own, `createInvite` makes the room that it has checked for.
section Alone

variable {w : World}

def Invite.cancelled (i : Invite) : Invite := { i with status := .CANCELLED }

theorem view_cancelAll (w : World) (pending : List Invite) :
    (view Stmt w (pending.map fun i => .inviteUpdate i.id { status := .CANCELLED })).invites.rows =
      w.invites.rows.map fun i => if i.id ∈ pending.map Invite.id then i.cancelled else i := by
  induction pending generalizing w with
  | nil => simp [view]
  | cons i rest ih =>
      rw [List.map_cons, view_cons, ih, apply_eq, World.apply, Table.rows_modify, List.map_map]
      apply List.map_congr_left
      intro row _
      by_cases hrow : row.id = i.id
      · simp [hrow, Invite.cancelled, InviteUpdate.apply]
      · simp [hrow, Invite.cancelled, InviteUpdate.apply]

theorem startOfUtcDay_le (t : Time) : startOfUtcDay t ≤ t := by
  have hpos : 0 ≤ t % 86400000 := Int.emod_nonneg t (by decide)
  exact sub_le_self t hpos

theorem hasRoom_cancelAll {inviterId : Id} {email : String} {n : ℕ} {ws : List Write}
    (hsent : (w.invites.count fun i => i.inviterId = inviterId ∧ startOfUtcDay w.clock ≤ i.sentAt) <
      MAX_INVITES_PER_UTC_DAY)
    (hcancel : Stmt.exec (.inviteCancelPending inviterId email) w = .ok (n, ws)) :
    (view Stmt w ws).HasRoom inviterId email := by
  cases hcancel
  constructor
  · rw [clock_view]
    refine lt_of_le_of_lt (sentOnDay_cancelAll _ _ _ _) (lt_of_le_of_lt ?_ hsent)
    refine List.countP_mono_left fun i _ hi => ?_
    obtain ⟨hinviter, hday⟩ := of_decide_eq_true hi
    exact decide_eq_true ⟨hinviter, hday ▸ startOfUtcDay_le i.sentAt⟩
  · rw [World.pendingFor, Table.count, view_cancelAll, List.countP_map, List.countP_eq_zero]
    intro i hi hcounted
    have hpending := of_decide_eq_true hcounted
    simp only at hpending
    split at hpending
    · exact absurd hpending.2.2 (by simp [Invite.cancelled])
    · rename_i hleft
      exact hleft (List.mem_map_of_mem (List.mem_filter.mpr ⟨hi, decide_eq_true hpending⟩))

theorem createInvite_limits (h : WithinLimits w) (host : Host) (inviterId : Id)
    (rawEmail : String) (id : Id) (token : String) :
    Prog.Ends (fun _ w' => WithinLimits w')
      (createInvite host inviterId rawEmail id token) w := by
  unfold createInvite
  refine Prog.ends_require h fun _ => ?_
  refine Prog.ends_query (fun _ => rfl) (Prog.ends_expect h fun inviter _ => ?_)
  refine Prog.ends_require h fun _ => ?_
  refine Prog.ends_query (fun _ => rfl) (Prog.ends_require h fun _ => ?_)
  refine Prog.ends_query (fun _ => rfl) (Prog.ends_query (fun _ => rfl) ?_)
  refine Prog.ends_require h fun hsent => ?_
  refine Prog.ends_call (fun _ => h) fun n ws hcancel => ?_
  have hroom := hasRoom_cancelAll hsent hcancel
  obtain ⟨pending, rfl, _⟩ := exec_inviteCancelPending hcancel
  have hcancelled : WithinLimits (view Stmt w
      (pending.map fun i => .inviteUpdate i.id { status := .CANCELLED })) := h.cancelAll
  refine Prog.ends_call (f := pure) (fun _ => hcancelled) fun a ws hcreate => ?_
  obtain ⟨hfree, _, _, rfl, rfl⟩ := exec_inviteCreate hcreate
  exact (withinLimits_create_iff hcancelled hfree rfl rfl).mpr hroom

end Alone

theorem InviteRequest.alone_limits {host : Host} {p : Request Unit} (hp : InviteRequest host p)
    {w : World} (h : WithinLimits w) : WithinLimits (p.alone w).2 := by
  let R : Rules Stmt := Rules.alone WithinLimits
  have hinv : ∀ s : Store World Write, R.inv s ↔ WithinLimits s.db := fun _ => Iff.rfl
  have hguar : ∀ s s' : Store World Write, R.guar s s' := fun _ _ => trivial
  cases hp with
  | createInvite inviterId rawEmail id token =>
      rw [Prog.alone_void]
      exact createInvite_limits h host inviterId rawEmail id token
  | cancel inviterId inviteId =>
      exact (Rules.wp_alone (s := ⟨w, []⟩) h
        (wp_cancel_limits hinv hguar 0 inviterId inviteId _)).1
  | register dto ids =>
      exact (Rules.wp_alone (s := ⟨w, []⟩) h
        (Rules.wp_void (wp_register (registerCommits_limits hinv hguar 0 host dto ids)))).1

-- As long as every create still finds the room that its request has checked for, both
-- limits hold. One request at a time needs no such condition.
theorem withinLimits_of_reaches (host : Host) {w : World} (hw : WithinLimits w) :
    (∀ s : System Stmt World Write ApiError,
      System.Reaches (InviteRequest host) createsWithRoom (System.init w) s →
        WithinLimits s.store.db) ∧
    ∀ calls : List (ℕ × Request Unit), (∀ call ∈ calls, InviteRequest host call.2) →
      WithinLimits (oneByOne servedAfter calls w) := by
  constructor
  · intro s h
    have hrun := System.Reaches.safe (C := limitsContract) (fun p hp me st _ => hp.wp_limits me st)
      (fun _ _ hst => ⟨hst.of_invites rfl, trivial⟩) (System.init_safe hw) h
    exact hrun.1.inv
  · intro calls hcalls
    have hany : EachMeets servedAfter (fun _ _ => True) calls w :=
      eachMeets_of_forall (fun _ _ => trivial) calls w
    refine oneByOne_inv (fun call hmem db hdb _ => ?_) hw hany
    exact (hcalls call hmem).alone_limits (hdb.of_invites rfl)

-- The sender invites the guest again, and someone else at the same time.
def invites (rawEmail : String) (n : ℕ) : Request Unit :=
  (createInvite .plain 1 rawEmail n (toString n)).void

theorem withinLimits_two_emails : ∃ s : System Stmt World Write ApiError,
    WithinLimits s.store.db ∧ (s.store.db.pendingFor 1 "guest@example.com" = 1 ∧
      s.store.db.sentOnDay 1 0 = 3) := by
  have hstart : WithinLimits invited := by
    have hone (p : Invite → Bool) : invited.invites.count p ≤ 1 :=
      List.countP_le_length.trans (by decide)
    exact ⟨fun _ _ => (hone _).trans (by decide), fun _ _ => hone _⟩
  have hps : ∀ p ∈ [invites "guest@example.com" 2, invites "other@example.com" 3],
      InviteRequest .plain p := by
    intro p hp
    simp only [List.mem_cons, List.not_mem_nil, or_false] at hp
    rcases hp with rfl | rfl <;> exact .createInvite _ _ _ _
  obtain ⟨s, h, hobs⟩ := System.exists_reaches_of_interleave (InviteRequest .plain) createsWithRoom
    (System.init invited) [invites "guest@example.com" 2, invites "other@example.com" 3]
    [0, 1, 0, 1, 0, 1, 0, 1, 0, 1, 0, 1]
    (fun s => (s.store.db.pendingFor 1 "guest@example.com", s.store.db.sentOnDay 1 0)) (1, 3) hps
    (by decide +kernel)
  exact ⟨s, (withinLimits_of_reaches .plain hstart).1 s h, Prod.mk.inj hobs⟩

-- Nineteen invites of today, all cancelled by now.
def cancelledInvite (n : ℕ) : Invite where
  id := n
  token := toString n
  inviterId := 1
  email := "other@example.com"
  status := .CANCELLED
  sentAt := 0

def almostSpent : World :=
  { invited with
    invites := (List.range 19).foldl (fun invites n => invites.insert (cancelledInvite n))
      Table.empty }

theorem almostSpent_withinLimits : WithinLimits almostSpent := by
  have hrows : almostSpent.invites.rows.length = 19 ∧
      ∀ i ∈ almostSpent.invites.rows, i.status = .CANCELLED := by decide +kernel
  constructor
  · intro inviterId day
    have hcount : almostSpent.sentOnDay inviterId day ≤ 19 := hrows.1 ▸ List.countP_le_length
    exact hcount.trans (by decide)
  · intro inviterId email
    have hnone : almostSpent.pendingFor inviterId email = 0 := by
      refine List.countP_eq_zero.mpr fun i hi hcounted => ?_
      have hpending := (of_decide_eq_true hcounted).2.2
      rw [hrows.2 i hi] at hpending
      cases hpending
    omega

-- Both requests count nineteen invites and find nothing pending, and then both create.
theorem two_pending_for_guest : WithinLimits almostSpent ∧
    ∃ s : System Stmt World Write ApiError,
      System.Reaches (InviteRequest .plain) Guard.none (System.init almostSpent) s ∧
        s.store.db.sentOnDay 1 0 = 21 ∧ s.store.db.pendingFor 1 "guest@example.com" = 2 ∧
          ¬WithinLimits s.store.db := by
  have hps : ∀ p ∈ [invites "guest@example.com" 20, invites "guest@example.com" 21],
      InviteRequest .plain p := by
    intro p hp
    simp only [List.mem_cons, List.not_mem_nil, or_false] at hp
    rcases hp with rfl | rfl <;> exact .createInvite _ _ _ _
  obtain ⟨s, h, hobs⟩ := System.exists_reaches_of_interleave (InviteRequest .plain) Guard.none
    (System.init almostSpent) [invites "guest@example.com" 20, invites "guest@example.com" 21]
    [0, 1, 0, 1, 0, 1, 0, 1, 0, 1, 0, 1]
    (fun s => (s.store.db.sentOnDay 1 0, s.store.db.pendingFor 1 "guest@example.com")) (21, 2) hps
    (by decide +kernel)
  obtain ⟨hday, hpending⟩ := Prod.mk.inj hobs
  refine ⟨almostSpent_withinLimits, s, h, hday, hpending, fun hlimits => ?_⟩
  have hone := hlimits.pending 1 "guest@example.com"
  omega

end SideQuest
