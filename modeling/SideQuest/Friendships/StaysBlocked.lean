import SideQuest.Friendships.Block
import SideQuest.Lib.Races

-- A blocked friendship stays blocked, as long as no block comes between the check of an
-- acceptance and its update.

namespace SideQuest

open ReadCommitted FriendshipsService

def World.friendshipStatus (w : World) (friendshipId : Id) : Option FriendshipStatus :=
  (w.friendships.find? friendshipId).map Friendship.status

section Writes

variable (friendshipId : Id)

-- The status that a write gives to the friendship.
def setsStatus (status : FriendshipStatus) : Write → Bool
  | .friendshipUpdate id d => id = friendshipId ∧ d.status = status
  | _ => false

def announcesAccept : Write → Bool
  | .emit (.friendRequestAccepted _ _ id) => id = friendshipId
  | _ => false

def blocksRow (entry : ℕ × List Write) : Bool := entry.2.any (setsStatus friendshipId .BLOCKED)

def acceptsRow (entry : ℕ × List Write) : Bool := entry.2.any (setsStatus friendshipId .ACCEPTED)

end Writes

-- Every row that is blocked is still there, and blocked.
def StaysBlocked (w w' : World) : Prop :=
  ∀ id, w.friendshipStatus id = some .BLOCKED → w'.friendshipStatus id = some .BLOCKED

-- A row is blocked from the first block on, no acceptance of it comes later, and a thread
-- announces only what it has accepted.
structure BlockedForGood (s : Store World Write) : Prop where
  blocked : ∀ id, ∀ entry ∈ s.wal, blocksRow id entry = true →
    s.db.friendshipStatus id = some .BLOCKED
  ordered : s.wal.Pairwise fun entry later =>
    ∀ id, blocksRow id entry = true → acceptsRow id later = false
  announced : ∀ me id, ∀ entry ∈ s.own me, entry.2.any (announcesAccept id) = true →
    ∃ accepting ∈ s.own me, acceptsRow id accepting = true

-- A row that `accept` has read as anything but blocked is not blocked when it updates it.
def acceptsUnblocked : RaceGuard Stmt World Write := fun seen move w =>
  match move with
  | .run (.friendshipUpdateStatus id .ACCEPTED _) => seen.all fun
      | ⟨.friendshipFindUnique id', some f⟩ =>
          id' ≠ id ∨ f.status = .BLOCKED ∨ w.friendshipStatus id ≠ some .BLOCKED
      | _ => true
  | _ => true

def staysBlockedContract : RaceContract Stmt World Write where
  inv := BlockedForGood
  guar s s' := StaysBlocked s.db s'.db
  commit _ _ := True
  guard := acceptsUnblocked
  guar_refl _ _ h := h
  guar_trans h h' id hid := h' id (h id hid)
  commit_nil _ := trivial

section Commits

variable {w : World} {s : Store World Write} {me : ℕ}

theorem friendshipStatus_update (id : Id) (d : FriendshipUpdate) (id' : Id) :
    (w.apply (.friendshipUpdate id d)).friendshipStatus id' =
      if id' = id then (w.friendshipStatus id').map fun _ => d.status
      else w.friendshipStatus id' := by
  simp only [World.friendshipStatus, World.apply, Table.find?_modify]
  split
  · cases w.friendships.find? id' <;> rfl
  · rfl

-- What each of the writes keeps.
theorem staysBlocked_create {row : Friendship} (hfree : w.friendships.find? row.id = none) :
    StaysBlocked w (w.apply (.friendshipCreate row)) := by
  intro id hid
  have hne : row.id ≠ id := by
    rintro rfl
    rw [World.friendshipStatus, hfree] at hid
    cases hid
  rwa [World.friendshipStatus, World.apply, Table.find?_insert_ne _ hne]

theorem staysBlocked_accept {id : Id} {now : Time} (hopen : w.friendshipStatus id ≠ some .BLOCKED) :
    StaysBlocked w (w.apply (.friendshipUpdate id ⟨.ACCEPTED, now⟩)) := by
  intro id' hid'
  rw [friendshipStatus_update]
  split
  · rename_i hsame
    exact absurd (hsame ▸ hid') hopen
  · exact hid'

theorem staysBlocked_block (id : Id) (now : Time) :
    StaysBlocked w (w.apply (.friendshipUpdate id ⟨.BLOCKED, now⟩)) := by
  intro id' hid'
  rw [friendshipStatus_update, hid']
  split <;> rfl

-- What one more commit must establish.
theorem BlockedForGood.commit (h : BlockedForGood s) {wr : Write}
    (hkeeps : StaysBlocked s.db (s.db.apply wr))
    (hblocks : ∀ id, setsStatus id .BLOCKED wr = true →
      (s.db.apply wr).friendshipStatus id = some .BLOCKED)
    (haccepts : ∀ id, setsStatus id .ACCEPTED wr = true →
      s.db.friendshipStatus id ≠ some .BLOCKED)
    (hannounces : ∀ id, announcesAccept id wr = true →
      ∃ accepting ∈ s.own me, acceptsRow id accepting = true) :
    staysBlockedContract.Commits me s [wr] := by
  refine ⟨⟨⟨?_, ?_, ?_⟩, hkeeps⟩, trivial⟩
  · intro id entry hentry hblocked
    rcases List.mem_append.mp hentry with hold | hnew
    · exact hkeeps id (h.blocked id entry hold hblocked)
    · rw [List.mem_singleton.mp hnew] at hblocked
      exact hblocks id (by simpa [blocksRow] using hblocked)
  · refine List.pairwise_append.mpr ⟨h.ordered, List.pairwise_singleton _ _, ?_⟩
    intro entry hentry later hlater id hblocked
    rw [List.mem_singleton.mp hlater]
    by_contra haccepted
    have hset : setsStatus id .ACCEPTED wr = true := by simpa [acceptsRow] using haccepted
    exact haccepts id hset (h.blocked id entry hentry hblocked)
  · intro i id entry hentry hannounced
    by_cases hi : i = me
    · subst hi
      rw [Store.own_commit_self] at hentry ⊢
      have hearlier : ∃ accepting ∈ s.own i, acceptsRow id accepting = true := by
        rcases List.mem_append.mp hentry with hold | hnew
        · exact h.announced i id entry hold hannounced
        · rw [List.mem_singleton.mp hnew] at hannounced
          exact hannounces id (by simpa using hannounced)
      obtain ⟨accepting, hmem, haccepted⟩ := hearlier
      exact ⟨accepting, List.mem_append_left _ hmem, haccepted⟩
    · rw [Store.own_commit_ne s (Ne.symm hi)] at hentry ⊢
      exact h.announced i id entry hentry hannounced

theorem BlockedForGood.create (h : BlockedForGood s) {row : Friendship}
    (hfree : s.db.friendships.find? row.id = none) :
    staysBlockedContract.Commits me s [.friendshipCreate row] :=
  h.commit (staysBlocked_create hfree) (fun _ hset => by cases hset) (fun _ hset => by cases hset)
    fun _ hset => by cases hset

-- The update of an acceptance that has found its row pending.
theorem BlockedForGood.accept (h : BlockedForGood s) {id : Id} {now : Time} {f : Friendship}
    {seen : List (Seen Stmt)} (hread : ⟨.friendshipFindUnique id, some f⟩ ∈ seen)
    (hpending : f.status = .PENDING)
    (hguard : acceptsUnblocked seen (.run (.friendshipUpdateStatus id .ACCEPTED now)) s.db = true) :
    staysBlockedContract.Commits me s [.friendshipUpdate id ⟨.ACCEPTED, now⟩] := by
  have hopen : s.db.friendshipStatus id ≠ some .BLOCKED := by
    have hrace := of_decide_eq_true (List.all_eq_true.mp hguard _ hread)
    rcases hrace with hother | hblocked | hopen
    · exact absurd rfl hother
    · rw [hpending] at hblocked
      cases hblocked
    · exact hopen
  refine h.commit (staysBlocked_accept hopen) (fun _ hset => by simp [setsStatus] at hset) ?_
    fun _ hset => by cases hset
  intro id' hset
  have hsame : id = id' := by simpa [setsStatus] using hset
  rwa [← hsame]

theorem BlockedForGood.block (h : BlockedForGood s) {id : Id} {row : Friendship} {now : Time}
    (hrow : s.db.friendships.find? id = some row) :
    staysBlockedContract.Commits me s [.friendshipUpdate id ⟨.BLOCKED, now⟩] := by
  have hstatus : s.db.friendshipStatus id = some row.status := by
    rw [World.friendshipStatus, hrow, Option.map_some]
  refine h.commit (staysBlocked_block id now) ?_ (fun _ hset => by simp [setsStatus] at hset)
    fun _ hset => by cases hset
  intro id' hset
  have hsame : id = id' := by simpa [setsStatus] using hset
  rw [← hsame, friendshipStatus_update, if_pos rfl, hstatus]
  rfl

-- A request announces the acceptance that it has just committed.
theorem BlockedForGood.announce {s' : Store World Write} (h : BlockedForGood s') {id : Id}
    {now : Time} {a b : Id} (hown : s'.own me =
      (s.commit Stmt me [.friendshipUpdate id ⟨.ACCEPTED, now⟩]).own me) :
    staysBlockedContract.Commits me s' [.emit (.friendRequestAccepted a b id)] := by
  refine h.commit (fun _ hid => hid) (fun _ hset => by cases hset) (fun _ hset => by cases hset)
    fun id' hset => ?_
  have hsame : id = id' := by simpa [announcesAccept] using hset
  rw [hown, Store.own_commit_self, hsame]
  exact ⟨_, List.mem_append_right _ (List.mem_singleton_self _), by simp [acceptsRow, setsStatus]⟩

end Commits

inductive AcceptOrBlock : Request Unit → Prop
  | accept (userId friendshipId : Id) : AcceptOrBlock (accept userId friendshipId).void
  | block (userId otherUserId newId : Id) : AcceptOrBlock (block userId otherUserId newId).void

section Requests

variable {me : ℕ} {s : Store World Write}

theorem wp_accept_staysBlocked {userId friendshipId : Id} :
    staysBlockedContract.wp me (fun _ _ _ => True) (accept userId friendshipId) [] s := by
  unfold accept
  refine RaceContract.wp_query (fun _ => rfl) fun s₁ _ => ?_
  refine RaceContract.wp_expect fun f hfound => ?_
  refine RaceContract.wp_require fun _ => ?_
  refine RaceContract.wp_require fun hpending => ?_
  refine RaceContract.wp_query (fun _ => rfl) fun s₂ _ => ?_
  refine RaceContract.wp_call fun s₃ h₃ hguard _ _ he _ => ?_
  obtain ⟨_, _, _, rfl⟩ := exec_friendshipUpdateStatus he
  have h : BlockedForGood s₃ := Rules.rely_inv _ h₃
  refine ⟨h.accept ?_ hpending hguard, ?_⟩
  · rw [hfound]
    exact List.mem_cons_of_mem _ List.mem_cons_self
  · refine RaceContract.wp_call fun s₄ h₄ _ _ _ he _ => ?_
    cases exec_emit he
    have h' : BlockedForGood s₄ := Rules.rely_inv _ h₄
    exact ⟨h'.announce h₄.2.2.2, fun _ _ => trivial⟩

theorem AcceptOrBlock.wp_staysBlocked {p : Request Unit} (hp : AcceptOrBlock p) :
    staysBlockedContract.wp me (fun _ _ _ => True) p [] s := by
  cases hp with
  | accept userId friendshipId => exact RaceContract.wp_void wp_accept_staysBlocked
  | block userId otherUserId newId =>
      refine RaceContract.wp_of_rules (fun _ _ => trivial) (Rules.wp_void ?_)
      refine Rules.wp_mono (fun _ _ _ => trivial) (wp_block (P := fun _ _ => True) ?_ ?_)
      · intro s₁ s' now _ _ hr _ hfree
        have h : BlockedForGood s' := Rules.rely_inv _ hr
        exact h.create hfree |>.1
      · intro s₁ s' f row now _ _ _ hr hrow
        have h : BlockedForGood s' := Rules.rely_inv _ hr
        exact ⟨(h.block hrow).1, fun _ _ => trivial⟩

-- On its own an acceptance finds the row as it has read it.
theorem AcceptOrBlock.alone_staysBlocked {w w' : World} {p : Request Unit} (hp : AcceptOrBlock p)
    (h : StaysBlocked w w') : StaysBlocked w (p.alone w').2 := by
  let R : Rules Stmt := Rules.alone (StaysBlocked w)
  have hcommits {s' : Store World Write} {ws : List Write} (hs' : StaysBlocked w s'.db)
      (hws : StaysBlocked s'.db (view Stmt s'.db ws)) : R.Commits 0 s' ws := by
    refine ⟨?_, trivial⟩
    show StaysBlocked w (s'.commit Stmt 0 ws).db
    rw [Store.commit_db]
    exact fun id hid => hws id (hs' id hid)
  have hemits : Emits R 0 := fun _ _ hs' => hcommits hs' fun _ hid => hid
  have halone {q : Request Friendship} (hq : R.wp 0 (fun _ _ => True) q ⟨w', []⟩) :
      StaysBlocked w (q.void.alone w').2 := (Rules.wp_alone h (Rules.wp_void hq)).1
  cases hp with
  | accept userId friendshipId =>
      refine halone (wp_accept fun s₁ s' f row now _ hfound _ hpending hr _ _ => ?_)
      have hstore : s' = s₁ := hr.2
      have hopen : s'.db.friendshipStatus friendshipId ≠ some .BLOCKED := by
        rw [hstore, World.friendshipStatus, hfound, Option.map_some, hpending]
        exact fun hsame => by cases hsame
      exact ⟨hcommits (Rules.rely_inv _ hr) (staysBlocked_accept hopen),
        fun s'' hr' => hemits s'' _ (Rules.rely_inv _ hr')⟩
  | block userId otherUserId newId =>
      refine halone (wp_block (P := fun _ _ => True) ?_ ?_)
      · intro s₁ s' now _ _ hr _ hfree
        exact hcommits (Rules.rely_inv _ hr) (staysBlocked_create hfree)
      · intro s₁ s' f row now _ _ _ hr _
        exact ⟨hcommits (Rules.rely_inv _ hr) (staysBlocked_block f.id now), fun _ _ => trivial⟩

end Requests

theorem blockedForGood_init (w : World) : BlockedForGood ⟨w, []⟩ where
  blocked _ _ hentry := by cases hentry
  ordered := List.Pairwise.nil
  announced _ _ _ hentry := by cases hentry

-- As long as no block comes between the check and the update of an acceptance, a block is
-- there for good, and nothing accepted is announced that was written after it. One request
-- at a time needs no such condition.
theorem blockedForGood_of_reaches (w : World) :
    (∀ r r' : Recalling Stmt World Write ApiError,
      Recalling.Reaches AcceptOrBlock acceptsUnblocked (Recalling.init w) r →
        Recalling.Reaches AcceptOrBlock acceptsUnblocked r r' →
          StaysBlocked r.store.db r'.store.db ∧ BlockedForGood r'.store) ∧
    ∀ calls : List (ℕ × Request Unit), (∀ call ∈ calls, AcceptOrBlock call.2) →
      StaysBlocked w (oneByOne servedAfter calls w) := by
  constructor
  · intro r r' h h'
    have hrun {r₁ r₂ : Recalling Stmt World Write ApiError} (hr₁ : r₁.Safe staysBlockedContract)
        (hr : Recalling.Reaches AcceptOrBlock acceptsUnblocked r₁ r₂) :=
      Recalling.Reaches.safe (C := staysBlockedContract) (fun p hp me st _ => hp.wp_staysBlocked)
        (fun _ _ hst => ⟨⟨hst.blocked, hst.ordered, hst.announced⟩, fun _ hid => hid⟩) hr₁ hr
    have hsafe := (hrun (Recalling.init_safe (blockedForGood_init w)) h).1
    obtain ⟨hsafe', hkeeps⟩ := hrun hsafe h'
    exact ⟨hkeeps, hsafe'.inv⟩
  · intro calls hcalls
    have hany : EachMeets servedAfter (fun _ _ => True) calls w :=
      eachMeets_of_forall (fun _ _ => trivial) calls w
    have hcall : ∀ call ∈ calls, ∀ db, StaysBlocked w db → True →
        StaysBlocked w (servedAfter call db) := fun call hmem db hdb _ =>
      (hcalls call hmem).alone_staysBlocked hdb
    exact oneByOne_inv hcall (fun _ hid => hid) hany

-- User 2 has asked user 1.
def asked : World :=
  { strangers with friendships := Table.empty.insert (newFriendship 2 1 1 0) }

-- User 1 accepts and blocks user 2 at the same time: the block comes after the update of
-- the acceptance and before its announcement. A second acceptance comes too late.
theorem blockedForGood_late_accept : ∃ r r' : Recalling Stmt World Write ApiError,
    (StaysBlocked r.store.db r'.store.db ∧ BlockedForGood r'.store) ∧
      r.store.db.friendshipStatus 1 = some .BLOCKED ∧
        r'.store.db.events = [.friendRequestAccepted 2 1 1] := by
  have hps : ∀ p : Request Unit, .spawn p ∈
      System.interleave [(accept 1 1).void, (block 1 2 7).void, (accept 1 1).void]
        [0, 1, 0, 0, 1, 1] ++ ([.next 0, .next 2] : List (Choice Stmt ApiError ℕ)) →
          AcceptOrBlock p := by
    intro p hp
    simp only [List.mem_append, System.spawn_mem_interleave, List.mem_cons, List.not_mem_nil,
      or_false, reduceCtorEq] at hp
    rcases hp with rfl | rfl | rfl
    · exact .accept _ _
    · exact .block _ _ _
    · exact .accept _ _
  obtain ⟨r, r', h, h', hobs⟩ := Recalling.exists_reaches_of_play_play AcceptOrBlock
    acceptsUnblocked (Recalling.init asked) _ _
    (fun r r' => (r.store.db.friendshipStatus 1, r'.store.db.events))
    (some .BLOCKED, [.friendRequestAccepted 2 1 1]) hps (by decide +kernel)
  exact ⟨r, r', (blockedForGood_of_reaches asked).1 r r' h h', Prod.mk.inj hobs⟩

-- The acceptance reads the row as pending, the block comes in between, and the row ends
-- up accepted and announced.
theorem accepted_after_block : ∃ s s' : System Stmt World Write ApiError,
    System.Reaches AcceptOrBlock Guard.none (System.init asked) s ∧
      System.Reaches AcceptOrBlock Guard.none s s' ∧
        ¬StaysBlocked s.store.db s'.store.db ∧ s.store.db.events = [] ∧
          s'.store.db.events = [.friendRequestAccepted 2 1 1] := by
  have hps : ∀ p : Request Unit, .spawn p ∈
      System.interleave [(accept 1 1).void, (block 1 2 7).void] [0, 1, 1, 1] ++
        ([.next 0, .next 0, .next 0] : List (Choice Stmt ApiError ℕ)) → AcceptOrBlock p := by
    intro p hp
    simp only [List.mem_append, System.spawn_mem_interleave, List.mem_cons, List.not_mem_nil,
      or_false, reduceCtorEq] at hp
    rcases hp with rfl | rfl
    · exact .accept _ _
    · exact .block _ _ _
  obtain ⟨s, s', h, h', hobs⟩ := System.exists_reaches_of_play_play AcceptOrBlock Guard.none
    (System.init asked) _ _
    (fun s s' => ((s.store.db.friendshipStatus 1, s'.store.db.friendshipStatus 1),
      (s.store.db.events, s'.store.db.events)))
    ((some .BLOCKED, some .ACCEPTED), ([], [.friendRequestAccepted 2 1 1])) hps (by decide +kernel)
  obtain ⟨hstatus, hevents⟩ := Prod.mk.inj hobs
  obtain ⟨hbefore, hafter⟩ := Prod.mk.inj hstatus
  refine ⟨s, s', h, h', fun hstays => ?_, Prod.mk.inj hevents⟩
  have hblocked := hstays 1 hbefore
  rw [hafter] at hblocked
  cases hblocked

end SideQuest
