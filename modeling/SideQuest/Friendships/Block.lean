import SideQuest.Friendships.Requests
import SideQuest.Invites.Requests
import SideQuest.Lib.Alone

-- A block holds exactly until the blocked user removes the row that records it.

namespace SideQuest

open ReadCommitted FriendshipsService InvitesService AuthService

-- No two rows are the friendship of the same users.
def OnePerPair (w : World) : Prop :=
  ∀ a b, ∀ f ∈ w.friendships.rows, ∀ g ∈ w.friendships.rows, f.Joins a b → g.Joins a b → f = g

-- The friendship of two users is there, and blocked.
def Blocked (a b : Id) (w : World) : Prop :=
  (w.friendshipBetween a b).map Friendship.status = some .BLOCKED

-- `held a b`: user `a` has blocked user `b`.
structure BlockInv (held : Id → Id → Prop) (w : World) : Prop where
  onePerPair : OnePerPair w
  blocked : ∀ a b, held a b → ∃ f ∈ w.friendships.rows, f.Joins a b ∧ f.status = .BLOCKED

section

variable {w : World} {a b : Id} {f : Friendship}

theorem not_joins_of_friendshipBetween (h : w.friendshipBetween a b = none)
    (hmem : f ∈ w.friendships.rows) : ¬f.Joins a b := by
  intro hjoins
  have hnot := List.find?_eq_none.mp h f hmem
  exact hnot (decide_eq_true hjoins)

theorem friendshipBetween_eq_some_iff (h : OnePerPair w) :
    w.friendshipBetween a b = some f ↔ f ∈ w.friendships.rows ∧ f.Joins a b := by
  constructor
  · exact World.friendshipBetween_eq_some
  · rintro ⟨hmem, hjoins⟩
    cases hfound : w.friendshipBetween a b with
    | none => exact absurd hjoins (not_joins_of_friendshipBetween hfound hmem)
    | some g =>
        obtain ⟨hmem', hjoins'⟩ := World.friendshipBetween_eq_some hfound
        rw [h a b f hmem g hmem' hjoins hjoins']

theorem World.friendshipBetween_comm : w.friendshipBetween a b = w.friendshipBetween b a := by
  have hsides (f : Friendship) :
      (f.requesterId = a ∧ f.addresseeId = b) ∨ (f.requesterId = b ∧ f.addresseeId = a) ↔
        (f.requesterId = b ∧ f.addresseeId = a) ∨ (f.requesterId = a ∧ f.addresseeId = b) := Or.comm
  simp only [World.friendshipBetween, hsides]

-- While the block is there, the blocked user cannot ask again.
theorem request_of_blocked (h : Blocked a b w) (hab : b ≠ a) (newId : Id) :
    (request b a newId).alone w = (.error (.conflict "Friendship already exists"), w) := by
  obtain ⟨f, hfound, _⟩ := Option.map_eq_some_iff.mp h
  rw [World.friendshipBetween_comm] at hfound
  simp [request, Prog.call, Prog.alone, Stmt.exec, ask, Prog.require, hfound, hab]

-- A blocked user cannot ask again either.
def ShutOut (a b : Id) (w : World) : Prop :=
  Blocked a b w ∧ ∀ newId, b ≠ a →
    (request b a newId).alone w = (.error (.conflict "Friendship already exists"), w)

theorem Blocked.shutOut (h : Blocked a b w) : ShutOut a b w :=
  ⟨h, fun newId hab => request_of_blocked h hab newId⟩

-- Two friendships of the same users have the same sides.
theorem Friendship.Joins.sides {g : Friendship} (hf : f.Joins a b) (hg : g.Joins a b) :
    f.Joins g.requesterId g.addresseeId := by
  rcases hg with ⟨hr, ha⟩ | ⟨hr, ha⟩
  · rw [hr, ha]
    exact hf
  · rw [hr, ha]
    exact hf.symm

theorem BlockInv.blocked_between {held : Id → Id → Prop} (h : BlockInv held w) (hab : held a b) :
    Blocked a b w := by
  obtain ⟨f, hmem, hjoins, hstatus⟩ := h.blocked a b hab
  have hbetween := (friendshipBetween_eq_some_iff h.onePerPair).mpr ⟨hmem, hjoins⟩
  rw [Blocked, hbetween, Option.map_some, hstatus]

end

section Changes

variable {held : Id → Id → Prop} {w w' : World}

theorem BlockInv.of_friendships (h : BlockInv held w) (heq : w'.friendships = w.friendships) :
    BlockInv held w' := by
  constructor
  · rw [OnePerPair, heq]
    exact h.onePerPair
  · rw [heq]
    exact h.blocked

theorem BlockInv.create (h : BlockInv held w) (row : Friendship)
    (hpair : w.friendshipBetween row.requesterId row.addresseeId = none)
    (hfree : w.friendships.find? row.id = none)
    (hw' : w'.friendships = w.friendships.insert row) : BlockInv held w' := by
  have hrows : w'.friendships.rows = w.friendships.rows ++ [row] := by
    rw [hw', Table.rows_insert hfree]
  have hnew {a b : Id} {f : Friendship} (hmem : f ∈ w.friendships.rows) (hf : f.Joins a b) :
      ¬row.Joins a b := fun hrow => not_joins_of_friendshipBetween hpair hmem (hf.sides hrow)
  constructor
  · intro a b f hf g hg hfj hgj
    rw [hrows, List.mem_append, List.mem_singleton] at hf hg
    rcases hf with hf | rfl
    · rcases hg with hg | rfl
      · exact h.onePerPair a b f hf g hg hfj hgj
      · exact absurd hgj (hnew hf hfj)
    · rcases hg with hg | rfl
      · exact absurd hfj (hnew hg hgj)
      · rfl
  · intro a b hab
    obtain ⟨f, hmem, hf⟩ := h.blocked a b hab
    refine ⟨f, ?_, hf⟩
    rw [hrows]
    exact List.mem_append_left _ hmem

-- An update keeps the blocks when it does not touch a blocking row or blocks it again.
theorem BlockInv.update (h : BlockInv held w) (id : Id) (d : FriendshipUpdate)
    (hstatus : ∀ a b, held a b → ∀ f ∈ w.friendships.rows, f.Joins a b → f.id = id →
      d.status = .BLOCKED) : BlockInv held (w.apply (.friendshipUpdate id d)) := by
  have hrows : (w.apply (.friendshipUpdate id d)).friendships.rows =
      w.friendships.rows.map fun f => if f.id = id then d.apply f else f := rfl
  have hsides (f : Friendship) (a b : Id) :
      (if f.id = id then d.apply f else f).Joins a b ↔ f.Joins a b := by
    split <;> rfl
  constructor
  · intro a b f' hf' g' hg' hfj hgj
    rw [hrows] at hf' hg'
    obtain ⟨f, hf, rfl⟩ := List.mem_map.mp hf'
    obtain ⟨g, hg, rfl⟩ := List.mem_map.mp hg'
    have heq := h.onePerPair a b f hf g hg ((hsides f a b).mp hfj) ((hsides g a b).mp hgj)
    rw [heq]
  · intro a b hab
    obtain ⟨f, hmem, hjoins, hblocked⟩ := h.blocked a b hab
    refine ⟨if f.id = id then d.apply f else f, ?_, (hsides f a b).mpr hjoins, ?_⟩
    · rw [hrows]
      exact List.mem_map_of_mem hmem
    · split
      · rename_i hid
        exact hstatus a b hab f hmem hjoins hid
      · exact hblocked

theorem BlockInv.delete (h : BlockInv held w) (row : Friendship)
    (hkeeps : ∀ a b, held a b → ∀ f ∈ w.friendships.rows, f.Joins a b → f.id ≠ row.id) :
    BlockInv held (w.apply (.friendshipDelete row)) := by
  have hmem (f : Friendship) : f ∈ (w.apply (.friendshipDelete row)).friendships.rows ↔
      f ∈ w.friendships.rows ∧ f.id ≠ row.id := by simp [World.apply, Table.erase]
  constructor
  · intro a b f hf g hg hfj hgj
    exact h.onePerPair a b f ((hmem f).mp hf).1 g ((hmem g).mp hg).1 hfj hgj
  · intro a b hab
    obtain ⟨f, hf, hjoins, hblocked⟩ := h.blocked a b hab
    exact ⟨f, (hmem f).mpr ⟨hf, hkeeps a b hab f hf hjoins⟩, hjoins, hblocked⟩

end Changes

abbrev blockRules (held : Id → Id → Prop) : Rules Stmt := Rules.alone (BlockInv held)

theorem blockInv_commits {held : Id → Id → Prop} {me : ℕ} {s : Store World Write} {ws : List Write}
    (h : BlockInv held (view Stmt s.db ws)) : (blockRules held).Commits me s ws := by
  refine ⟨?_, trivial⟩
  show BlockInv held _
  rwa [Store.commit_db]

theorem emits_block (held : Id → Id → Prop) (me : ℕ) : Emits (blockRules held) me :=
  fun _ _ h => blockInv_commits (h.of_friendships rfl)

section Requests

variable {held : Id → Id → Prop} {me : ℕ} {s : Store World Write}

-- Alone, the pair is still free when its row is created.
theorem create_alone {s₁ s' : Store World Write} {row : Friendship}
    (hr : (blockRules held).rely me [] s₁ s')
    (hpair : s₁.db.friendshipBetween row.requesterId row.addresseeId = none)
    (hfree : s'.db.friendships.find? row.id = none) :
    (blockRules held).Commits me s' [.friendshipCreate row] := by
  have h : BlockInv held s'.db := Rules.rely_inv _ hr
  have hstore : s' = s₁ := hr.2
  exact blockInv_commits (h.create row (hstore ▸ hpair) hfree rfl)

theorem wp_request_block {requesterId addresseeId newId : Id} :
    (blockRules held).wp me (fun _ _ => True) (request requesterId addresseeId newId) s := by
  exact wp_request (emits_block held me) fun s₁ s' now _ hpair hr _ hfree =>
    create_alone hr hpair hfree

-- A row that holds a block is not pending.
theorem wp_accept_block {userId friendshipId : Id} :
    (blockRules held).wp me (fun _ _ => True) (accept userId friendshipId) s := by
  refine wp_accept fun s₁ s' f row now _ hfound _ hpending hr _ _ => ?_
  have h : BlockInv held s'.db := Rules.rely_inv _ hr
  have hstore : s' = s₁ := hr.2
  rw [← hstore] at hfound
  refine ⟨?_, fun s'' hr' => emits_block held me s'' _ (Rules.rely_inv _ hr')⟩
  refine blockInv_commits (h.update friendshipId ⟨.ACCEPTED, now⟩ ?_)
  intro a b hab g hg hjoins hid
  obtain ⟨blocking, hmem, hjoins', hblocked⟩ := h.blocked a b hab
  have hsame := h.onePerPair a b g hg blocking hmem hjoins hjoins'
  have hfg : f = g := by
    rw [← hid, Table.find?_of_mem hg] at hfound
    exact (Option.some.inj hfound).symm
  rw [hfg, hsame, hblocked] at hpending
  cases hpending

theorem wp_block_block {userId otherUserId newId : Id} :
    (blockRules held).wp me
      (fun _ s' => ∃ f ∈ s'.db.friendships.rows, f.Joins userId otherUserId ∧ f.status = .BLOCKED)
      (block userId otherUserId newId) s := by
  apply wp_block
  · exact fun s₁ s' now _ hpair hr _ hfree => create_alone hr hpair hfree
  · intro s₁ s' f row now _ hfound hjoins hr hrow
    have h : BlockInv held s'.db := Rules.rely_inv _ hr
    have hstore : s' = s₁ := hr.2
    obtain rfl : f = row := by
      rw [hstore, hfound] at hrow
      exact Option.some.inj hrow
    refine ⟨blockInv_commits (h.update _ _ fun _ _ _ _ _ _ _ => rfl), fun s'' hr' => ?_⟩
    refine ⟨FriendshipUpdate.apply ⟨.BLOCKED, now⟩ f, ?_, hjoins, rfl⟩
    have hstore' : s'' = s'.commit Stmt me [.friendshipUpdate f.id ⟨.BLOCKED, now⟩] := hr'.2
    rw [hstore', Store.commit_db]
    exact List.mem_map.mpr ⟨f, Table.mem_of_find? hrow, if_pos rfl⟩

-- The user who removes the row is on neither side of a held block, or removes another row.
theorem wp_remove_block {userId friendshipId : Id}
    (hkeeps : ∀ a b, held a b → userId ≠ a ∧
      (userId = b → (s.db.friendshipBetween a b).map Friendship.id ≠ some friendshipId)) :
    (blockRules held).wp me (fun _ _ => True) (remove userId friendshipId) s := by
  refine wp_remove fun s₁ s' f row hr₁ hfound hside hr hrow => ?_
  have h : BlockInv held s'.db := Rules.rely_inv _ hr
  have hstore₁ : s₁ = s := hr₁.2
  have hstore : s' = s := hr.2.trans hstore₁
  obtain rfl : row = f := by
    rw [hstore, ← hstore₁, hfound] at hrow
    exact (Option.some.inj hrow).symm
  have hid : row.id = friendshipId := Table.key_of_find? hrow
  refine blockInv_commits (h.delete row ?_)
  intro a b hab g hg hjoins he
  have hgr : g = row := by
    rw [← hid, ← he, Table.find?_of_mem hg] at hrow
    exact Option.some.inj hrow
  have hbetween := (friendshipBetween_eq_some_iff h.onePerPair).mpr ⟨hg, hjoins⟩
  obtain ⟨hnot, hrow'⟩ := hkeeps a b hab
  have hb : userId = b := by
    have hsides : userId = a ∨ userId = b := by
      rw [← hgr] at hside
      rcases hjoins with ⟨rfl, rfl⟩ | ⟨rfl, rfl⟩
      · exact hside.imp Eq.symm Eq.symm
      · exact hside.symm.imp Eq.symm Eq.symm
    exact hsides.resolve_left hnot
  refine hrow' hb ?_
  rw [← hstore, hbetween, Option.map_some, he, hid]

theorem registerCommits_block (held : Id → Id → Prop) (me : ℕ) (host : Host) (dto : RegisterDto)
    (ids : FreshIds) : RegisterCommits (blockRules held) me host dto ids where
  emits := emits_block held me
  plain s s' r _ := by
    have h : BlockInv held s'.db := Rules.rely_inv _ r.to_next
    exact blockInv_commits (h.of_friendships rfl)
  referral token s s' t _ := by
    have h : BlockInv held s'.db := Rules.rely_inv _ t.award.to_commit
    obtain ⟨_, _, hfind, hcreate, _⟩ := t.alone
    rcases t.befriend.made with ⟨_, _, hw⟩ | ⟨hpair, hfree, now, hw⟩
    · refine blockInv_commits (h.of_friendships ?_)
      rw [t.friendships_view, hw]
      rfl
    · rw [hfind] at hpair
      rw [hcreate] at hfree
      refine blockInv_commits (h.create (referralFriendship _ _ _ now) hpair hfree ?_)
      rw [t.friendships_view, hw]
      rfl
  session _ _ h _ := blockInv_commits (BlockInv.of_friendships h rfl)

end Requests

-- The calls that write friendships, and time.
inductive FriendshipCall where
  | request (requesterId addresseeId newId : Id)
  | accept (userId friendshipId : Id)
  | block (userId otherUserId newId : Id)
  | remove (userId friendshipId : Id)
  | register (dto : RegisterDto) (ids : FreshIds)
  | wait (elapsed : ℕ)

namespace FriendshipCall

-- The user who makes the call.
def userId : FriendshipCall → Option Id
  | .request requesterId _ _ => some requesterId
  | .accept userId _ => some userId
  | .block userId _ _ => some userId
  | .remove userId _ => some userId
  | .register _ _ | .wait _ => none

def after (host : Host) : FriendshipCall → World → World
  | .request requesterId addresseeId newId, w =>
      ((FriendshipsService.request requesterId addresseeId newId).alone w).2
  | .accept userId friendshipId, w => ((FriendshipsService.accept userId friendshipId).alone w).2
  | .block userId otherUserId newId, w =>
      ((FriendshipsService.block userId otherUserId newId).alone w).2
  | .remove userId friendshipId, w => ((FriendshipsService.remove userId friendshipId).alone w).2
  | .register dto ids, w => ((AuthService.register host dto ids).alone w).2
  | .wait elapsed, w => Backend.happen Stmt elapsed w

-- User `b` does not remove the friendship with user `a`.
def KeepsRow (a b : Id) : FriendshipCall → World → Prop
  | .remove userId friendshipId, w =>
      userId = b → (w.friendshipBetween a b).map Friendship.id ≠ some friendshipId
  | _, _ => True

end FriendshipCall

theorem BlockInv.after (host : Host) {held : Id → Id → Prop} {call : FriendshipCall} {w : World}
    (h : BlockInv held w)
    (hkeeps : ∀ a b, held a b → call.userId ≠ some a ∧ call.KeepsRow a b w) :
    BlockInv held (call.after host w) := by
  have halone {α : Type} {P : α → Store World Write → Prop} {p : Request α}
      (hp : (blockRules held).wp 0 P p ⟨w, []⟩) : BlockInv held (p.alone w).2 :=
    (Rules.wp_alone h hp).1
  cases call with
  | request requesterId addresseeId newId => exact halone wp_request_block
  | accept userId friendshipId => exact halone wp_accept_block
  | block userId otherUserId newId => exact halone wp_block_block
  | remove userId friendshipId =>
      refine halone (wp_remove_block fun a b hab => ?_)
      obtain ⟨hnot, hrow⟩ := hkeeps a b hab
      exact ⟨fun he => hnot (congrArg some he), hrow⟩
  | register dto ids => exact halone (wp_register (registerCommits_block held 0 host dto ids))
  | wait elapsed => exact h.of_friendships rfl

-- Two users have one friendship at most, whatever was called so far.
theorem blockInv_of_history (host : Host) {w : World} (hw : w.friendships = Table.empty)
    (history : List FriendshipCall) :
    BlockInv (fun _ _ => False) (oneByOne (FriendshipCall.after host) history w) := by
  have hmeets : EachMeets (FriendshipCall.after host) (fun _ _ => True) history w :=
    eachMeets_of_forall (fun _ _ => trivial) history w
  refine oneByOne_inv ?_ ?_ hmeets
  · exact fun _ _ _ h _ => h.after host fun _ _ hab => hab.elim
  · refine ⟨fun a b f hf => ?_, fun _ _ hab => hab.elim⟩
    rw [hw] at hf
    cases hf

-- `block` has recorded the block when it answers.
theorem blockInv_of_block {w : World} (h : OnePerPair w) {a b newId : Id} {f : Friendship}
    (hblock : ((block a b newId).alone w).1 = .ok f) :
    BlockInv (fun x y => x = a ∧ y = b) ((block a b newId).alone w).2 := by
  have hinv : BlockInv (fun _ _ => False) w := ⟨h, fun _ _ hab => hab.elim⟩
  have hwp : (blockRules fun _ _ => False).wp 0
      (fun _ s' => ∃ f ∈ s'.db.friendships.rows, f.Joins a b ∧ f.status = .BLOCKED)
      (block a b newId) ⟨w, []⟩ := wp_block_block
  obtain ⟨hafter, hanswer⟩ := Rules.wp_alone hinv hwp
  obtain ⟨s', hs', hblocked⟩ := hanswer f hblock
  refine ⟨hafter.onePerPair, ?_⟩
  rintro _ _ ⟨rfl, rfl⟩
  rwa [hs'] at hblocked

theorem remove_alone {w : World} {userId friendshipId : Id} {f : Friendship}
    (hfound : w.friendships.find? friendshipId = some f)
    (hside : f.requesterId = userId ∨ f.addresseeId = userId) :
    ((remove userId friendshipId).alone w).2 = w.apply (.friendshipDelete f) := by
  simp [remove, Prog.call, Prog.alone, Stmt.exec, ask, Prog.expect, Prog.require, hfound, hside]

-- The blocked user may remove the row, and the block is gone.
theorem not_blocked_of_remove {w : World} (h : OnePerPair w) {a b friendshipId : Id}
    (hrow : (w.friendshipBetween a b).map Friendship.id = some friendshipId) :
    ¬Blocked a b ((remove b friendshipId).alone w).2 := by
  obtain ⟨f, hbetween, rfl⟩ := Option.map_eq_some_iff.mp hrow
  obtain ⟨hmem, hjoins⟩ := World.friendshipBetween_eq_some hbetween
  have hside : f.requesterId = b ∨ f.addresseeId = b :=
    hjoins.elim (fun hf => Or.inr hf.2) fun hf => Or.inl hf.1
  rw [remove_alone (Table.find?_of_mem hmem) hside]
  intro hblocked
  obtain ⟨g, hg, _⟩ := Option.map_eq_some_iff.mp hblocked
  obtain ⟨hmem', hjoins'⟩ := World.friendshipBetween_eq_some hg
  have herased : g ∈ w.friendships.rows ∧ g.id ≠ f.id := by
    simpa [World.apply, Table.erase] using hmem'
  exact herased.2 (congrArg Friendship.id (h a b g herased.1 f hmem hjoins' hjoins))

-- A block that user `a` has put on user `b` holds all along, and shuts `b` out, exactly if
-- `b` does not remove the row that records it.
theorem block_holds_iff_keepsRow (host : Host) {w : World} (hw : w.friendships = Table.empty)
    (history : List FriendshipCall) {a b newId : Id} {f : Friendship}
    (hblock : ((block a b newId).alone
      (oneByOne (FriendshipCall.after host) history w)).1 = .ok f)
    (calls : List FriendshipCall) (hothers : ∀ call ∈ calls, call.userId ≠ some a) :
    (∀ before, before <+: calls → ShutOut a b (oneByOne (FriendshipCall.after host) before
      ((block a b newId).alone (oneByOne (FriendshipCall.after host) history w)).2)) ↔
        EachMeets (FriendshipCall.after host) (FriendshipCall.KeepsRow a b) calls
          ((block a b newId).alone (oneByOne (FriendshipCall.after host) history w)).2 := by
  apply forall_prefix_iff_eachMeets (BlockInv fun x y => x = a ∧ y = b)
  · intro call hmem db hinv hkeeps
    refine hinv.after host ?_
    rintro _ _ ⟨rfl, rfl⟩
    exact ⟨hothers call hmem, hkeeps⟩
  · exact fun db hinv => (hinv.blocked_between ⟨rfl, rfl⟩).shutOut
  · intro call _ db hinv hremove hshut
    cases call with
    | remove userId friendshipId =>
        obtain ⟨rfl, hrow⟩ := Classical.not_imp.mp hremove
        exact not_blocked_of_remove hinv.onePerPair (Classical.not_not.mp hrow) hshut.1
    | _ => exact absurd trivial hremove
  · exact blockInv_of_block (blockInv_of_history host hw history).onePerPair hblock

-- Two users who have no friendship yet.
def strangers : World :=
  { World.empty with
    users := (Table.empty.insert sender).insert
      { id := 2, email := "second@example.com", username := "second", passwordHash := "hash" } }

-- User 2 has become a friend and is blocked. The request, the acceptance and the block
-- that user 2 tries afterwards leave it so, and so does the removal by user 3.
theorem block_holds_after_friendship :
    ShutOut 1 2 (oneByOne (FriendshipCall.after .plain)
      [.request 2 1 8, .accept 2 1, .block 2 1 9, .remove 3 1]
      ((block 1 2 7).alone (oneByOne (FriendshipCall.after .plain)
        [.request 2 1 1, .accept 1 1] strangers)).2) := by
  refine (block_holds_iff_keepsRow .plain rfl [.request 2 1 1, .accept 1 1]
    (f := ⟨1, 2, 1, .BLOCKED, some 0, 0⟩) ?_ _ ?_).mpr ?_ _ (List.prefix_refl _)
  · decide +kernel
  · decide
  · refine ⟨trivial, trivial, trivial, ?_, trivial⟩
    intro hb
    cases hb

-- The blocked user removes the row and asks again.
theorem block_lifted_by_remove : strangers.friendships = Table.empty ∧
    ((block 1 2 7).alone strangers).1 = .ok ⟨7, 1, 2, .BLOCKED, some 0, 0⟩ ∧
      ¬Blocked 1 2 (oneByOne (FriendshipCall.after .plain) [.remove 2 7]
        ((block 1 2 7).alone strangers).2) ∧
        ((oneByOne (FriendshipCall.after .plain) [.remove 2 7, .request 2 1 8]
          ((block 1 2 7).alone strangers).2).friendshipBetween 1 2).map Friendship.status =
            some .PENDING := by
  unfold Blocked
  refine ⟨rfl, ?_⟩
  decide +kernel

end SideQuest
