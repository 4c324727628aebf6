import SideQuest.Model.Calls
import SideQuest.Lib.Interleaving

-- What a lock protects while it is held.

namespace SideQuest

open ReadCommitted

-- A locked row stays as it is; a unique value that is free stays free.
def Lock.same : Lock → World → World → Prop
  | .user id, w, w' => w'.users.find? id = w.users.find? id
  | .userEmail email, w, w' => w.userByEmail email = none → w'.userByEmail email = none
  | .username name, w, w' => w.userByUsername name = none → w'.userByUsername name = none
  | .checkIn u l, w, w' => w'.checkIns.find? (u, l) = w.checkIns.find? (u, l)
  | .completion u q, w, w' => w'.completions.find? (u, q) = w.completions.find? (u, q)
  | .userAchievement u a, w, w' =>
      w'.userAchievements.find? (u, a) = w.userAchievements.find? (u, a)
  | .invite id, w, w' => w'.invites.find? id = w.invites.find? id
  | .inviteToken token, w, w' => w.inviteByToken token = none → w'.inviteByToken token = none
  | .friendship id, w, w' => w'.friendships.find? id = w.friendships.find? id
  | .friendshipPair r a, w, w' => w.friendshipOfPair r a = none → w'.friendshipOfPair r a = none

theorem Lock.same_refl (l : Lock) (w : World) : l.same w w := by
  cases l <;> simp [Lock.same]

theorem Lock.same_trans {l : Lock} {w w' w'' : World} (h : l.same w w') (h' : l.same w' w'') :
    l.same w w'' := by
  cases l <;> simp only [Lock.same] at * <;> first | exact h'.trans h | exact fun hn => h' (h hn)

section Columns

variable {α κ : Type} {key : α → κ} [DecidableEq κ] {p : α → Bool} {t : Table key}

theorem find?_none_insert {a : α} (ha : p a = false) (h : t.rows.find? p = none) :
    (t.insert a).rows.find? p = none := by
  unfold Table.insert
  split
  · exact h
  · rw [List.find?_append, h]
    simp [ha]

theorem find?_none_modify {k : κ} {f : α → α} (hf : ∀ a, key (f a) = key a)
    (hp : ∀ a, p (f a) = p a) (h : t.rows.find? p = none) :
    (t.modify k f hf).rows.find? p = none := by
  have hmap := Table.map_key_find?_modify t k f hf p hp
  rw [h] at hmap
  simpa using hmap

theorem find?_none_erase {k : κ} (h : t.rows.find? p = none) :
    (t.erase k).rows.find? p = none := by
  rw [List.find?_eq_none] at h ⊢
  exact fun a ha => h a (List.mem_filter.mp ha).1

end Columns

-- A write outside its locks changes no row and takes no unique value.
theorem Lock.same_apply {l : Lock} (w : World) {wr : Write} (h : l ∉ wr.locks) :
    l.same w (w.apply wr) := by
  cases wr <;> cases l <;>
    simp only [Write.locks, List.mem_cons, List.not_mem_nil, or_false, not_or, Lock.user.injEq,
      Lock.userEmail.injEq, Lock.username.injEq, Lock.checkIn.injEq, Lock.completion.injEq,
      Lock.userAchievement.injEq, Lock.invite.injEq, Lock.inviteToken.injEq,
      Lock.friendship.injEq, Lock.friendshipPair.injEq, reduceCtorEq, not_false_eq_true,
      true_and] at h <;>
    first
    | exact rfl
    | exact fun hn => hn
    | exact Table.find?_insert_ne _ (fun he => h (by cases he; simp))
    | exact Table.find?_modify_ne _ _ (UserUpdate.id_apply _) h
    | exact Table.find?_modify_ne _ _ (InviteUpdate.id_apply _) h
    | exact Table.find?_modify_ne _ _ (FriendshipUpdate.id_apply _) h
    | exact Table.find?_modify_ne _ _ (QuestCompletionUpdate.key_apply _)
        (fun he => h (Prod.mk.inj he))
    | exact Table.find?_modify_ne _ _ (UserAchievementUpdate.key_apply _)
        (fun he => h (Prod.mk.inj he))
    | exact fun hn => find?_none_modify (UserUpdate.id_apply _) (fun _ => rfl) hn
    | exact fun hn => find?_none_modify (InviteUpdate.id_apply _) (fun _ => rfl) hn
    | exact fun hn => find?_none_modify (FriendshipUpdate.id_apply _) (fun _ => rfl) hn
    | exact fun hn => find?_none_insert (decide_eq_false fun he => h he.symm) hn
    | exact fun hn => find?_none_insert (decide_eq_false fun he => h ⟨he.1.symm, he.2.symm⟩) hn
    | exact fun hn => find?_none_erase hn
    | exact (Table.find?_erase _ _ _).trans (if_neg h)

@[simp] theorem exec_eq {β : Type} (st : Stmt β) (w : World) :
    Backend.exec st w = st.exec w := rfl

@[simp] theorem apply_eq (w : World) (wr : Write) : Backend.apply Stmt w wr = w.apply wr := rfl

@[simp] theorem locks_eq (wr : Write) : Backend.locks Stmt wr = wr.locks := rfl

instance : LawfulBackend Stmt where
  same := Lock.same
  same_refl := Lock.same_refl
  same_trans := Lock.same_trans
  same_apply := Lock.same_apply
  same_happen l w _ := by cases l <;> simp [Backend.happen, Lock.same, World.userByEmail,
    World.userByUsername, World.inviteByToken, World.friendshipOfPair]

end SideQuest
