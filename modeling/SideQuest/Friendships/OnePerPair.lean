import SideQuest.Friendships.Block
import SideQuest.Lib.Races

-- Two users have at most one friendship, as long as nobody joins them between the check
-- of a request and its insert.

namespace SideQuest

open ReadCommitted FriendshipsService

-- Two users whom the request has found without a friendship still have none when it
-- creates one.
def createsUnjoined : RaceGuard Stmt World Write := fun seen move w =>
  match move with
  | .run (.friendshipCreate _) => seen.all fun
      | ⟨.friendshipFindBetween a b, none⟩ => (w.friendshipBetween a b).isNone
      | _ => true
  | _ => true

inductive FriendshipRequest : Request Unit → Prop
  | request (requesterId addresseeId newId : Id) :
      FriendshipRequest (request requesterId addresseeId newId).void
  | accept (userId friendshipId : Id) : FriendshipRequest (accept userId friendshipId).void
  | block (userId otherUserId newId : Id) : FriendshipRequest (block userId otherUserId newId).void
  | remove (userId friendshipId : Id) : FriendshipRequest (remove userId friendshipId)

abbrev pairContract : RaceContract Stmt World Write :=
  .ofInv (fun s => OnePerPair s.db) createsUnjoined

theorem OnePerPair.blockInv {w : World} (h : OnePerPair w) : BlockInv (fun _ _ => False) w :=
  ⟨h, fun _ _ hab => hab.elim⟩

section

variable {me : ℕ} {s : Store World Write}

theorem commits_pair {ws : List Write} (h : BlockInv (fun _ _ => False) (view Stmt s.db ws)) :
    pairContract.Commits me s ws := by
  refine ⟨⟨?_, trivial⟩, trivial⟩
  show OnePerPair (s.commit Stmt me ws).db
  rw [Store.commit_db]
  exact h.onePerPair

theorem commits_emit (h : OnePerPair s.db) (e : AppEvent) : pairContract.Commits me s [.emit e] :=
  commits_pair ((OnePerPair.blockInv h).of_friendships rfl)

-- The insert of a request that has found its pair free.
theorem commits_create {seen : List (Seen Stmt)} {row : Friendship} (h : OnePerPair s.db)
    (hread : ⟨.friendshipFindBetween row.requesterId row.addresseeId, none⟩ ∈ seen)
    (hguard : createsUnjoined seen (.run (.friendshipCreate row)) s.db = true)
    (hfree : s.db.friendships.find? row.id = none) :
    pairContract.Commits me s [.friendshipCreate row] := by
  have hpair : s.db.friendshipBetween row.requesterId row.addresseeId = none :=
    Option.isNone_iff_eq_none.mp (List.all_eq_true.mp hguard _ hread)
  exact commits_pair (h.blockInv.create row hpair hfree rfl)

theorem wp_request_pair {requesterId addresseeId newId : Id} :
    pairContract.wp me (fun _ _ _ => True) (request requesterId addresseeId newId) [] s := by
  unfold request
  refine RaceContract.wp_require fun _ => ?_
  refine RaceContract.wp_query (fun _ => rfl) fun s₁ _ => ?_
  refine RaceContract.wp_require fun hnone => ?_
  refine RaceContract.wp_query (fun _ => rfl) fun s₂ _ => ?_
  refine RaceContract.wp_call fun s₃ h₃ hguard _ _ he _ => ?_
  obtain ⟨hfree, _, _, _, rfl, rfl⟩ := exec_friendshipCreate he
  refine ⟨commits_create (Rules.rely_inv _ h₃) ?_ hguard hfree, ?_⟩
  · rw [Option.isNone_iff_eq_none.mp hnone]
    exact List.mem_cons_of_mem _ List.mem_cons_self
  · refine RaceContract.wp_call fun s₄ h₄ _ _ _ he _ => ?_
    cases exec_emit he
    exact ⟨commits_emit (Rules.rely_inv _ h₄) _, fun _ _ => trivial⟩

-- `block` writes over the row that it has found, or that it has created.
theorem wp_block_pair {userId otherUserId newId : Id} :
    pairContract.wp me (fun _ _ _ => True) (block userId otherUserId newId) [] s := by
  have hblock (f : Friendship) (seen : List (Seen Stmt)) (s' : Store World Write) :
      pairContract.wp (ε := ApiError) me (fun _ _ _ => True) (do
        let now ← prisma .now
        prisma (.friendshipUpdateStatus f.id .BLOCKED now)) seen s' := by
    refine RaceContract.wp_query (fun _ => rfl) fun s₁ _ => ?_
    refine fun s₂ h₂ _ _ _ he _ => ?_
    obtain ⟨_, _, _, rfl⟩ := exec_friendshipUpdateStatus he
    have h : OnePerPair s₂.db := Rules.rely_inv _ h₂
    exact ⟨commits_pair (h.blockInv.update f.id ⟨.BLOCKED, s₁.db.clock⟩ fun _ _ hab => hab.elim),
      fun _ _ => trivial⟩
  unfold block
  refine RaceContract.wp_query (fun _ => rfl) fun s₁ _ => ?_
  cases hbetween : s₁.db.friendshipBetween userId otherUserId with
  | some f => exact hblock f _ _
  | none =>
      refine RaceContract.wp_query (fun _ => rfl) fun s₂ _ => ?_
      refine RaceContract.wp_call fun s₃ h₃ hguard _ _ he _ => ?_
      obtain ⟨hfree, _, _, _, rfl, rfl⟩ := exec_friendshipCreate he
      refine ⟨commits_create (Rules.rely_inv _ h₃) ?_ hguard hfree, hblock _ _ _⟩
      exact List.mem_cons_of_mem _ List.mem_cons_self

theorem FriendshipRequest.wp_pair {p : Request Unit} (hp : FriendshipRequest p) :
    pairContract.wp me (fun _ _ _ => True) p [] s := by
  cases hp with
  | request requesterId addresseeId newId => exact RaceContract.wp_void wp_request_pair
  | accept userId friendshipId =>
      refine RaceContract.wp_of_rules (fun _ _ => trivial) (Rules.wp_void ?_)
      refine wp_accept fun s₁ s' f row now _ _ _ _ hr _ _ => ?_
      have h : OnePerPair s'.db := Rules.rely_inv _ hr
      have hcommits : pairContract.Commits me s' [.friendshipUpdate friendshipId ⟨.ACCEPTED, now⟩] :=
        commits_pair (h.blockInv.update friendshipId ⟨.ACCEPTED, now⟩ fun _ _ hab => hab.elim)
      exact ⟨hcommits.1, fun s'' hr' => (commits_emit (Rules.rely_inv _ hr') _).1⟩
  | block userId otherUserId newId => exact RaceContract.wp_void wp_block_pair
  | remove userId friendshipId =>
      refine RaceContract.wp_of_rules (fun _ _ => trivial) ?_
      refine wp_remove fun s₁ s' f row _ _ _ hr _ => ?_
      have h : OnePerPair s'.db := Rules.rely_inv _ hr
      have hcommits : pairContract.Commits me s' [.friendshipDelete row] :=
        commits_pair (h.blockInv.delete row fun _ _ hab => hab.elim)
      exact hcommits.1

end

-- On its own a request finds the pair as it has read it.
theorem FriendshipRequest.alone_pair {p : Request Unit} (hp : FriendshipRequest p) {w : World}
    (h : OnePerPair w) : OnePerPair (p.alone w).2 := by
  have halone {α : Type} {P : α → Store World Write → Prop} {q : Request α}
      (hq : (blockRules fun _ _ => False).wp 0 P q ⟨w, []⟩) : OnePerPair (q.alone w).2 :=
    (Rules.wp_alone h.blockInv hq).1.onePerPair
  cases hp with
  | request requesterId addresseeId newId => exact halone (Rules.wp_void wp_request_block)
  | accept userId friendshipId => exact halone (Rules.wp_void wp_accept_block)
  | block userId otherUserId newId =>
      rw [Prog.alone_void]
      exact halone wp_block_block
  | remove userId friendshipId => exact halone (wp_remove_block fun _ _ hab => hab.elim)

-- As long as no two users are joined between the check and the insert of a request, any
-- two have at most one friendship. One request at a time needs no such condition.
theorem onePerPair_of_reaches {w : World} (hw : OnePerPair w) :
    (∀ r : Recalling Stmt World Write ApiError,
      Recalling.Reaches FriendshipRequest createsUnjoined (Recalling.init w) r →
        OnePerPair r.store.db) ∧
    ∀ calls : List (ℕ × Request Unit), (∀ call ∈ calls, FriendshipRequest call.2) →
      OnePerPair (oneByOne servedAfter calls w) := by
  constructor
  · intro r h
    have hrun := Recalling.Reaches.safe (C := pairContract) (fun p hp me st _ => hp.wp_pair)
      (fun _ _ hst => ⟨hst, trivial⟩) (Recalling.init_safe hw) h
    exact hrun.1.inv
  · intro calls hcalls
    have hany : EachMeets servedAfter (fun _ _ => True) calls w :=
      eachMeets_of_forall (fun _ _ => trivial) calls w
    exact oneByOne_inv (fun call hmem db hdb _ => (hcalls call hmem).alone_pair hdb) hw hany

theorem onePerPair_strangers : OnePerPair strangers := fun _ _ _ hf => by cases hf

-- A request of user 1 and a block by user 2 that comes once the row is there, while the
-- request has not answered yet.
theorem onePerPair_request_block : ∃ r : Recalling Stmt World Write ApiError,
    OnePerPair r.store.db ∧
      r.store.db.friendships.rows.map (fun f => (f.requesterId, f.addresseeId, f.status)) =
        [(1, 2, .BLOCKED)] := by
  obtain ⟨r, hr, hobs⟩ := Recalling.exists_reaches_of_play FriendshipRequest createsUnjoined
    (Recalling.init strangers)
    (System.interleave [(request 1 2 1).void, (block 2 1 2).void] [0, 0, 0, 1, 0, 1, 1])
    (fun r => r.store.db.friendships.rows.map fun f => (f.requesterId, f.addresseeId, f.status))
    [(1, 2, .BLOCKED)]
    (fun p hp => by
      simp only [System.spawn_mem_interleave, List.mem_cons, List.not_mem_nil, or_false] at hp
      rcases hp with rfl | rfl
      · exact .request _ _ _
      · exact .block _ _ _)
    (by decide +kernel)
  exact ⟨r, (onePerPair_of_reaches onePerPair_strangers).1 r hr, hobs⟩

-- Two users who ask each other at the same time: both find no row.
theorem two_friendships_of_mirrored_requests : ∃ s : System Stmt World Write ApiError,
    System.Reaches FriendshipRequest Guard.none (System.init strangers) s ∧
      ¬OnePerPair s.store.db := by
  obtain ⟨s, hs, hobs⟩ := System.exists_reaches_of_interleave FriendshipRequest Guard.none
    (System.init strangers) [(request 1 2 1).void, (request 2 1 2).void] [0, 1, 0, 0, 1, 1]
    (fun s => s.store.db.friendships.rows) [⟨1, 1, 2, .PENDING, none, 0⟩, ⟨2, 2, 1, .PENDING, none, 0⟩]
    (by simpa using ⟨FriendshipRequest.request 1 2 1, FriendshipRequest.request 2 1 2⟩)
    (by decide +kernel)
  refine ⟨s, hs, fun h => ?_⟩
  have hsame := h 1 2 ⟨1, 1, 2, .PENDING, none, 0⟩ (by simp [hobs]) ⟨2, 2, 1, .PENDING, none, 0⟩
    (by simp [hobs]) (Or.inl ⟨rfl, rfl⟩) (Or.inr ⟨rfl, rfl⟩)
  cases hsame

end SideQuest
