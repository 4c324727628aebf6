import SideQuest.Friendships.StaysBlocked

-- A friendship is accepted with the consent of both sides, as long as no acceptance hits a
-- row that a block has created.

namespace SideQuest

open ReadCommitted FriendshipsService InvitesService AuthService

namespace FriendshipCall

-- The call as a request of its own. Time passes outside the requests.
def program (host : Host) : FriendshipCall → Request Unit
  | .request requesterId addresseeId newId =>
      (FriendshipsService.request requesterId addresseeId newId).void
  | .accept userId friendshipId => (FriendshipsService.accept userId friendshipId).void
  | .block userId otherUserId newId => (FriendshipsService.block userId otherUserId newId).void
  | .remove userId friendshipId => FriendshipsService.remove userId friendshipId
  | .register dto ids => (AuthService.register host dto ids).void
  | .wait _ => return ()

-- The CUID of the friendship that the call may create.
def newId : FriendshipCall → Option Id
  | .request _ _ newId => some newId
  | .block _ _ newId => some newId
  | .register _ ids => some ids.friendship
  | .accept _ _ | .remove _ _ | .wait _ => none

-- The call creates rows like this one.
def Makes (f : Friendship) : FriendshipCall → Prop
  | .request requesterId addresseeId newId =>
      f.id = newId ∧ f.requesterId = requesterId ∧ f.addresseeId = addresseeId
  | .block userId otherUserId newId =>
      f.id = newId ∧ f.requesterId = userId ∧ f.addresseeId = otherUserId
  | .register _ ids => f.id = ids.friendship
  | .accept _ _ | .remove _ _ | .wait _ => False

theorem Makes.newId {f : Friendship} {call : FriendshipCall} (h : call.Makes f) :
    call.newId = some f.id := by
  cases call with
  | request => exact congrArg some h.1.symm
  | block => exact congrArg some h.1.symm
  | register => exact congrArg some (Eq.symm h)
  | accept => exact h.elim
  | remove => exact h.elim
  | wait => exact h.elim

end FriendshipCall

section

variable (calls : ℕ → FriendshipCall) (n : ℕ)

-- Every CUID is given to one call.
def DistinctIds : Prop :=
  ∀ i j id, (calls i).newId = some id → (calls j).newId = some id → i = j

-- Among the first `n` calls, the requester has asked for the row, and the addressee has
-- accepted it.
structure Consented (f : Friendship) : Prop where
  requested : ∃ i < n, calls i = .request f.requesterId f.addresseeId f.id
  accepted : ∃ i < n, calls i = .accept f.addresseeId f.id

-- The row comes from an invite.
def Referred (f : Friendship) : Prop :=
  ∃ i < n, ∃ dto ids, calls i = .register dto ids ∧ ids.friendship = f.id

-- No acceptance is written to a row that a block has created.
def NeverAcceptsBlock (wal : List (ℕ × List Write)) : Prop :=
  ∀ entry ∈ wal, ∀ id, acceptsRow id entry = true → ∀ i a b, calls i ≠ .block a b id

structure ConsentInv (s : Store World Write) : Prop where
  made : ∀ f ∈ s.db.friendships.rows, ∃ i < n, (calls i).Makes f
  consented : NeverAcceptsBlock calls s.wal → ∀ f ∈ s.db.friendships.rows,
    f.status = .ACCEPTED → Referred calls n f ∨ Consented calls n f

abbrev consentContract : Contract Stmt World Write := .ofInv (ConsentInv calls n) Guard.none

end

section Commits

variable {calls : ℕ → FriendshipCall} {n me : ℕ} {s : Store World Write}

-- Every row after the commit was there before, or may be there.
theorem ConsentInv.commit (h : ConsentInv calls n s) {ws : List Write}
    (hrows : ∀ f ∈ (view Stmt s.db ws).friendships.rows, f ∈ s.db.friendships.rows ∨
      (∃ i < n, (calls i).Makes f) ∧ (NeverAcceptsBlock calls (s.commit Stmt me ws).wal →
        f.status = .ACCEPTED → Referred calls n f ∨ Consented calls n f)) :
    (consentContract calls n).rules.Commits me s ws := by
  refine ⟨⟨?_, ?_⟩, trivial⟩
  · intro f hf
    rw [Store.commit_db] at hf
    rcases hrows f hf with hold | ⟨hmade, _⟩
    · exact h.made f hold
    · exact hmade
  · intro hnever f hf haccepted
    rw [Store.commit_db] at hf
    rcases hrows f hf with hold | ⟨_, hnew⟩
    · refine h.consented (fun entry hentry => hnever entry ?_) f hold haccepted
      exact (Store.wal_prefix_commit s me ws).subset hentry
    · exact hnew hnever haccepted

theorem ConsentInv.commit_same (h : ConsentInv calls n s) {ws : List Write}
    (hsame : (view Stmt s.db ws).friendships = s.db.friendships) :
    (consentContract calls n).rules.Commits me s ws :=
  h.commit fun _ hf => Or.inl (hsame ▸ hf)

theorem ConsentInv.commit_create (h : ConsentInv calls n s) {ws : List Write} {row : Friendship}
    (hview : (view Stmt s.db ws).friendships = s.db.friendships.insert row)
    (hmade : ∃ i < n, (calls i).Makes row)
    (hallowed : row.status = .ACCEPTED → Referred calls n row ∨ Consented calls n row) :
    (consentContract calls n).rules.Commits me s ws := by
  refine h.commit fun f hf => ?_
  rw [hview] at hf
  rcases Table.mem_of_mem_insert hf with hold | rfl
  · exact Or.inl hold
  · exact Or.inr ⟨hmade, fun _ => hallowed⟩

theorem ConsentInv.commit_update (h : ConsentInv calls n s) {id : Id} {d : FriendshipUpdate}
    (hallowed : NeverAcceptsBlock calls (s.commit Stmt me [.friendshipUpdate id d]).wal →
      d.status = .ACCEPTED → ∀ f ∈ s.db.friendships.rows, f.id = id →
        Referred calls n f ∨ Consented calls n f) :
    (consentContract calls n).rules.Commits me s [.friendshipUpdate id d] := by
  refine h.commit fun f' hf' => ?_
  obtain ⟨f, hf, rfl⟩ := List.mem_map.mp hf'
  split
  · rename_i hid
    refine Or.inr ⟨h.made f hf, fun hnever haccepted => ?_⟩
    rcases hallowed hnever haccepted f hf hid with href | hc
    · exact Or.inl href
    · exact Or.inr ⟨hc.requested, hc.accepted⟩
  · exact Or.inl hf

-- The row that an acceptance has read and the row that it hits come from the same call.
theorem ConsentInv.commit_accept (hids : DistinctIds calls) (h : ConsentInv calls n s)
    (hme : me < n) {userId id : Id} (hcall : calls me = .accept userId id) {read : Friendship}
    (hread : ∃ i < n, (calls i).Makes read) (hid : read.id = id)
    (haddressee : read.addresseeId = userId) (now : Time) :
    (consentContract calls n).rules.Commits me s [.friendshipUpdate id ⟨.ACCEPTED, now⟩] := by
  refine h.commit_update fun hnever _ f hf hf_id => ?_
  obtain ⟨i, hi, hmade⟩ := h.made f hf
  obtain ⟨j, _, hmade_read⟩ := hread
  have hsame : i = j := hids i j id (hf_id ▸ hmade.newId) (hid ▸ hmade_read.newId)
  subst hsame
  cases hmaker : calls i with
  | request requesterId addresseeId newId =>
      rw [hmaker] at hmade hmade_read
      obtain ⟨rfl, rfl, rfl⟩ := hmade
      have hsides : f.addresseeId = userId := hmade_read.2.2.symm.trans haddressee
      exact Or.inr ⟨⟨i, hi, hmaker⟩, me, hme, by rw [hcall, hsides, hf_id]⟩
  | block a b newId =>
      rw [hmaker] at hmade
      have hnot := hnever _ (List.mem_append_right _ (List.mem_singleton_self _)) id
        (by simp [acceptsRow, setsStatus]) i a b
      rw [hmaker, ← hf_id, hmade.1] at hnot
      exact absurd rfl hnot
  | register dto ids =>
      rw [hmaker] at hmade
      exact Or.inl ⟨i, hi, dto, ids, hmaker, hmade.symm⟩
  | accept => rw [hmaker] at hmade; exact hmade.elim
  | remove => rw [hmaker] at hmade; exact hmade.elim
  | wait => rw [hmaker] at hmade; exact hmade.elim

theorem ConsentInv.commit_delete (h : ConsentInv calls n s) (row : Friendship) :
    (consentContract calls n).rules.Commits me s [.friendshipDelete row] :=
  h.commit fun _ hf => Or.inl (List.mem_filter.mp hf).1

end Commits

section Calls

variable {host : Host} {calls : ℕ → FriendshipCall} {n me : ℕ} {s : Store World Write}

theorem emits_consent (me : ℕ) : Emits (consentContract calls n).rules me :=
  fun _ _ h => ConsentInv.commit_same h rfl

theorem registerCommits_consent {dto : RegisterDto} {ids : FreshIds} (hme : me < n)
    (hcall : calls me = .register dto ids) :
    RegisterCommits (consentContract calls n).rules me host dto ids where
  emits := emits_consent me
  plain _ s' r _ := by
    have h : ConsentInv calls n s' := Rules.rely_inv _ r.to_next
    exact h.commit_same rfl
  referral token _ s' t _ := by
    have h : ConsentInv calls n s' := Rules.rely_inv _ t.award.to_commit
    rcases t.befriend.made with ⟨_, _, hw⟩ | ⟨_, _, now, hw⟩
    · refine h.commit_same ?_
      rw [t.friendships_view, hw]
      rfl
    · have hview : (view Stmt s'.db t.writes).friendships = s'.db.friendships.insert
          (referralFriendship t.claim.invite.inviterId ids.user ids.friendship now) := by
        rw [t.friendships_view, hw]
        rfl
      have hmakes : ∃ i < n, (calls i).Makes
          (referralFriendship t.claim.invite.inviterId ids.user ids.friendship now) :=
        ⟨me, hme, hcall ▸ rfl⟩
      exact h.commit_create hview hmakes fun _ => Or.inl ⟨me, hme, dto, ids, hcall, rfl⟩
  session _ _ h _ := ConsentInv.commit_same h rfl

theorem wp_consent (hids : DistinctIds calls) (hme : me < n) :
    (consentContract calls n).rules.wp me (fun _ _ => True) ((calls me).program host) s := by
  cases hcall : calls me with
  | request requesterId addresseeId newId =>
      apply Rules.wp_void
      refine wp_request (emits_consent me) fun _ s' now _ _ hr _ _ => ?_
      have h : ConsentInv calls n s' := Rules.rely_inv _ hr
      exact h.commit_create rfl ⟨me, hme, hcall ▸ ⟨rfl, rfl, rfl⟩⟩ fun he => by cases he
  | accept userId friendshipId =>
      apply Rules.wp_void
      refine wp_accept fun s₁ s' f row now h₁ hfound haddressee _ hr _ _ => ?_
      have hread : ConsentInv calls n s₁ := Rules.rely_inv _ h₁
      have h : ConsentInv calls n s' := Rules.rely_inv _ hr
      have hmade := hread.made f (Table.mem_of_find? hfound)
      have hid : f.id = friendshipId := Table.key_of_find? hfound
      refine ⟨h.commit_accept hids hme hcall hmade hid haddressee now, fun s'' hr' => ?_⟩
      exact emits_consent me s'' _ (Rules.rely_inv _ hr')
  | block userId otherUserId newId =>
      apply Rules.wp_void
      refine Rules.wp_mono (fun _ _ _ => trivial) (wp_block (P := fun _ _ => True) ?_ ?_)
      · intro _ s' now _ _ hr _ _
        have h : ConsentInv calls n s' := Rules.rely_inv _ hr
        exact h.commit_create rfl ⟨me, hme, hcall ▸ ⟨rfl, rfl, rfl⟩⟩ fun he => by cases he
      · intro _ s' f row now _ _ _ hr _
        have h : ConsentInv calls n s' := Rules.rely_inv _ hr
        refine ⟨h.commit_update fun _ he => ?_, fun _ _ => trivial⟩
        cases he
  | remove userId friendshipId =>
      refine wp_remove fun _ s' f row _ _ _ hr _ => ?_
      have h : ConsentInv calls n s' := Rules.rely_inv _ hr
      exact h.commit_delete row
  | register dto ids => exact Rules.wp_void (wp_register (registerCommits_consent hme hcall))
  | wait elapsed => exact fun _ _ => trivial

end Calls

-- As long as no acceptance hits a row that a block has created, every accepted friendship
-- that no invite has made was requested by its one side and accepted by the other.
theorem consented_of_runs (host : Host) {calls : ℕ → FriendshipCall} (hids : DistinctIds calls)
    {w : World} (hw : w.friendships = Table.empty) {s : System Stmt World Write ApiError}
    (h : System.Runs (fun i => (calls i).program host) Guard.none (System.init w) s)
    (hnever : NeverAcceptsBlock calls s.store.wal) :
    ∀ f ∈ s.store.db.friendships.rows, f.status = .ACCEPTED →
      Referred calls s.threads.length f ∨ Consented calls s.threads.length f := by
  have hinit : ConsentInv calls s.threads.length ⟨w, []⟩ := by
    refine ⟨fun f hf => ?_, fun _ f hf => ?_⟩ <;>
    · simp only [hw] at hf
      cases hf
  have hsafe := System.Runs.safe (C := consentContract calls s.threads.length)
    (System.init_safe hinit) h (fun me st _ hme _ _ => wp_consent hids hme)
    (fun _ _ hst => ⟨⟨hst.made, hst.consented⟩, trivial⟩)
  exact hsafe.1.inv.consented hnever

-- User 1 asks user 2, who accepts.
def askAndAccept : ℕ → FriendshipCall
  | 0 => .request 1 2 1
  | 1 => .accept 2 1
  | _ => .wait 0

-- User 1 blocks user 2, who accepts the row of the block.
def blockAndAccept : ℕ → FriendshipCall
  | 0 => .block 1 2 7
  | 1 => .accept 2 7
  | _ => .wait 0

theorem distinctIds_of_first {calls : ℕ → FriendshipCall}
    (h : ∀ i, (calls (i + 1)).newId = none) : DistinctIds calls := by
  intro i j id hi hj
  cases i with
  | zero =>
      cases j with
      | zero => rfl
      | succ j => rw [h] at hj; cases hj
  | succ i => rw [h] at hi; cases hi

theorem consented_ask_and_accept : ∃ s : System Stmt World Write ApiError,
    (∀ f ∈ s.store.db.friendships.rows, f.status = .ACCEPTED →
      Referred askAndAccept s.threads.length f ∨ Consented askAndAccept s.threads.length f) ∧
        s.store.db.friendshipStatus 1 = some .ACCEPTED := by
  obtain ⟨s, hs, hobs⟩ := System.exists_runs_of_play (fun i => (askAndAccept i).program .plain)
    Guard.none (System.init strangers)
    (System.interleave [(request 1 2 1).void, (accept 2 1).void] [0, 0, 0, 1, 1, 1, 0])
    (fun s => s.store.db.friendshipStatus 1) (some .ACCEPTED) 2 rfl (by decide +kernel)
  refine ⟨s, consented_of_runs .plain ?_ rfl hs ?_, hobs⟩
  · exact distinctIds_of_first fun i => by cases i <;> rfl
  · intro entry _ id _ i a b hblock
    match i with
    | 0 => cases hblock
    | 1 => cases hblock
    | _ + 2 => cases hblock

-- The acceptance comes between the two writes of the block: the users are friends, and
-- nobody has asked.
theorem friends_by_block : DistinctIds blockAndAccept ∧
    ∃ s : System Stmt World Write ApiError,
      System.Runs (fun i => (blockAndAccept i).program .plain) Guard.none (System.init strangers) s ∧
        ∃ f ∈ s.store.db.friendships.rows, f.status = .ACCEPTED ∧
          (∀ n, ¬Referred blockAndAccept n f) ∧
            ∀ i requesterId addresseeId newId,
              blockAndAccept i ≠ .request requesterId addresseeId newId := by
  refine ⟨distinctIds_of_first fun i => by cases i <;> rfl, ?_⟩
  obtain ⟨s, hs, hobs⟩ := System.exists_runs_of_play (fun i => (blockAndAccept i).program .plain)
    Guard.none (System.init strangers)
    (System.interleave [(block 1 2 7).void, (accept 2 7).void] [0, 0, 0, 1, 1, 1])
    (fun s => s.store.db.friendships.rows) [⟨7, 1, 2, .ACCEPTED, some 0, 0⟩] 2 rfl
    (by decide +kernel)
  refine ⟨s, hs, ⟨7, 1, 2, .ACCEPTED, some 0, 0⟩, by simp [hobs], rfl, ?_, ?_⟩
  · rintro n ⟨i, _, dto, ids, hregister, _⟩
    match i with
    | 0 => cases hregister
    | 1 => cases hregister
    | _ + 2 => cases hregister
  · intro i _ _ _ hrequest
    match i with
    | 0 => cases hrequest
    | 1 => cases hrequest
    | _ + 2 => cases hrequest

end SideQuest
