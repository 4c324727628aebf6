import SideQuest.Model.Friendships
import SideQuest.Model.CallLemmas

-- The requests of `FriendshipsService`, by what each of them may commit.

namespace SideQuest

open ReadCommitted

-- The friendship of two users, either of whom may have requested it.
def Friendship.Joins (f : Friendship) (a b : Id) : Prop :=
  (f.requesterId = a ∧ f.addresseeId = b) ∨ (f.requesterId = b ∧ f.addresseeId = a)

theorem Friendship.Joins.symm {f : Friendship} {a b : Id} (h : f.Joins a b) : f.Joins b a :=
  Or.symm h

namespace FriendshipsService

variable {R : Rules Stmt} {me : ℕ} {s : Store World Write}

-- The row that `request` and `block` create.
abbrev newFriendship (requesterId addresseeId newId : Id) (now : Time) : Friendship :=
  { id := newId, requesterId, addresseeId, createdAt := now }

theorem wp_request {requesterId addresseeId newId : Id} (hemit : Emits R me)
    (hcreate : ∀ s₁ s' now, R.rely me [] s s₁ →
      s₁.db.friendshipBetween requesterId addresseeId = none → R.rely me [] s₁ s' →
        R.guard [] (.friendshipCreate (newFriendship requesterId addresseeId newId now)) s'.db = true →
          s'.db.friendships.find? newId = none →
            R.Commits me s' [.friendshipCreate (newFriendship requesterId addresseeId newId now)]) :
    R.wp me (fun _ _ => True) (request requesterId addresseeId newId) s := by
  unfold request
  refine Rules.wp_require fun _ => ?_
  refine Rules.wp_query (fun _ => rfl) fun s₁ h₁ => ?_
  refine Rules.wp_require fun hnone => ?_
  refine Rules.wp_query (fun _ => rfl) fun s₂ h₂ => ?_
  refine Rules.wp_call fun s₃ h₃ hguard _ _ he => ?_
  obtain ⟨hfree, _, _, _, rfl, rfl⟩ := exec_friendshipCreate he
  have hr := R.rely_trans h₂ h₃
  refine ⟨hcreate s₁ s₃ _ h₁ (Option.isNone_iff_eq_none.mp hnone) hr hguard hfree, ?_⟩
  exact wp_emit hemit fun _ _ _ => trivial

-- The update and the event of `accept` rest on the row that it has read.
theorem wp_accept {userId friendshipId : Id}
    (haccept : ∀ s₁ s' f row now, R.rely me [] s s₁ →
      s₁.db.friendships.find? friendshipId = some f → f.addresseeId = userId →
        f.status = .PENDING → R.rely me [] s₁ s' →
          R.guard [] (.friendshipUpdateStatus friendshipId .ACCEPTED now) s'.db = true →
            s'.db.friendships.find? friendshipId = some row →
              R.Commits me s' [.friendshipUpdate friendshipId ⟨.ACCEPTED, now⟩] ∧
                ∀ s'', R.rely me []
                  (s'.commit Stmt me [.friendshipUpdate friendshipId ⟨.ACCEPTED, now⟩]) s'' →
                    R.Commits me s'' [.emit (.friendRequestAccepted f.requesterId f.addresseeId
                      friendshipId)]) :
    R.wp me (fun _ _ => True) (accept userId friendshipId) s := by
  unfold accept
  refine Rules.wp_query (fun _ => rfl) fun s₁ h₁ => ?_
  refine Rules.wp_expect fun f hfound => ?_
  refine Rules.wp_require fun haddressee => ?_
  refine Rules.wp_require fun hpending => ?_
  refine Rules.wp_query (fun _ => rfl) fun s₂ h₂ => ?_
  refine Rules.wp_call fun s₃ h₃ hguard _ _ he => ?_
  obtain ⟨row, hrow, _, rfl⟩ := exec_friendshipUpdateStatus he
  obtain ⟨hcommits, hemits⟩ :=
    haccept s₁ s₃ f row _ h₁ hfound haddressee hpending (R.rely_trans h₂ h₃) hguard hrow
  refine ⟨hcommits, ?_⟩
  refine Rules.wp_call fun s₄ h₄ _ _ _ he => ?_
  cases exec_emit he
  exact ⟨hemits s₄ h₄, fun _ _ => trivial⟩

-- The update of `block` runs on the row that it has found or created.
theorem wp_block {P : Friendship → Store World Write → Prop} {userId otherUserId newId : Id}
    (hcreate : ∀ s₁ s' now, R.rely me [] s s₁ →
      s₁.db.friendshipBetween userId otherUserId = none → R.rely me [] s₁ s' →
        R.guard [] (.friendshipCreate (newFriendship userId otherUserId newId now)) s'.db = true →
          s'.db.friendships.find? newId = none →
            R.Commits me s' [.friendshipCreate (newFriendship userId otherUserId newId now)])
    (hblock : ∀ s₁ s' f row now, R.inv s₁ → s₁.db.friendships.find? f.id = some f →
      f.Joins userId otherUserId → R.rely me [] s₁ s' →
        s'.db.friendships.find? f.id = some row →
          R.Commits me s' [.friendshipUpdate f.id ⟨.BLOCKED, now⟩] ∧
            ∀ s'', R.rely me [] (s'.commit Stmt me [.friendshipUpdate f.id ⟨.BLOCKED, now⟩]) s'' →
              P (FriendshipUpdate.apply ⟨.BLOCKED, now⟩ row) s'') :
    R.wp me P (block userId otherUserId newId) s := by
  unfold block
  refine Rules.wp_query (fun _ => rfl) fun s₁ h₁ => ?_
  cases hbetween : s₁.db.friendshipBetween userId otherUserId with
  | some f =>
      obtain ⟨hmem, hjoins⟩ := World.friendshipBetween_eq_some hbetween
      have hfound : s₁.db.friendships.find? f.id = some f := Table.find?_of_mem hmem
      refine Rules.wp_query (fun _ => rfl) fun s₂ h₂ => ?_
      refine fun s₃ h₃ _ _ _ he => ?_
      obtain ⟨row, hrow, rfl, rfl⟩ := exec_friendshipUpdateStatus he
      exact hblock s₁ s₃ f row _ (R.rely_inv h₁) hfound hjoins (R.rely_trans h₂ h₃) hrow
  | none =>
      refine Rules.wp_query (fun _ => rfl) fun s₂ h₂ => ?_
      refine Rules.wp_call fun s₃ h₃ hguard _ _ he => ?_
      obtain ⟨hfree, _, _, _, rfl, rfl⟩ := exec_friendshipCreate he
      have hcommits := hcreate s₁ s₃ _ h₁ hbetween (R.rely_trans h₂ h₃) hguard hfree
      refine ⟨hcommits, ?_⟩
      refine Rules.wp_query (fun _ => rfl) fun s₄ h₄ => ?_
      refine fun s₅ h₅ _ _ _ he => ?_
      obtain ⟨row, hrow, rfl, rfl⟩ := exec_friendshipUpdateStatus he
      have hcreated : (s₃.commit Stmt me [.friendshipCreate
          (newFriendship userId otherUserId newId s₂.db.clock)]).db.friendships.find? newId =
            some (newFriendship userId otherUserId newId s₂.db.clock) :=
        (Table.find?_insert hfree newId).trans (if_pos rfl)
      exact hblock _ s₅ _ row _ hcommits.1 hcreated (Or.inl ⟨rfl, rfl⟩) (R.rely_trans h₄ h₅) hrow

theorem wp_remove {userId friendshipId : Id}
    (hremove : ∀ s₁ s' f row, R.rely me [] s s₁ →
      s₁.db.friendships.find? friendshipId = some f →
        f.requesterId = userId ∨ f.addresseeId = userId → R.rely me [] s₁ s' →
          s'.db.friendships.find? friendshipId = some row →
            R.Commits me s' [.friendshipDelete row]) :
    R.wp me (fun _ _ => True) (remove userId friendshipId) s := by
  unfold remove
  refine Rules.wp_query (fun _ => rfl) fun s₁ h₁ => ?_
  refine Rules.wp_expect fun f hfound => ?_
  refine Rules.wp_require fun hside => ?_
  refine Rules.wp_call fun s₂ h₂ _ _ _ he => ?_
  obtain ⟨hrow, rfl⟩ := exec_friendshipDelete he
  exact ⟨hremove s₁ s₂ f _ h₁ hfound hside h₂ hrow, fun _ _ => trivial⟩

end FriendshipsService

end SideQuest
