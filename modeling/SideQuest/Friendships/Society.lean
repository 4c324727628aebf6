import SideQuest.Model.Entities
import Mathlib.Data.Sym.Sym2

-- What the friendships are for, without rows and ids: there is one thing at most between
-- two users, and both sides see the same.

namespace SideQuest

inductive Bond where
  | asked (asker : Id)
  | friends
  | blocked
  deriving DecidableEq

@[ext] structure Society where
  member : Id → Bool
  bond : Sym2 Id → Option Bond

-- What one user does to the bond with another. A `stray` call is about nothing that there is.
inductive Deed where
  | ask (asker asked : Id)
  | accept (user : Id) (pair : Sym2 Id)
  | block (user other : Id)
  | remove (user : Id) (pair : Sym2 Id)
  | join (newcomer : Id) (host : Option Id)
  | wait
  | stray
  deriving DecidableEq

namespace Society

def tie (S : Society) (pair : Sym2 Id) (bond : Option Bond) : Society :=
  { S with bond := Function.update S.bond pair bond }

def welcome (S : Society) (newcomer : Id) : Society :=
  { S with member := Function.update S.member newcomer true }

-- What comes of a deed, unless it is refused.
def outcome (S : Society) : Deed → Option Society
  | .ask asker asked =>
      if asker ≠ asked ∧ S.bond s(asker, asked) = none ∧ S.member asker ∧ S.member asked then
        some (S.tie s(asker, asked) (some (.asked asker)))
      else none
  | .accept user pair =>
      match S.bond pair with
      | some (.asked asker) =>
          if pair = s(asker, user) then some (S.tie pair (some .friends)) else none
      | _ => none
  | .block user other =>
      if (S.bond s(user, other)).isSome ∨ (S.member user ∧ S.member other) then
        some (S.tie s(user, other) (some .blocked))
      else none
  | .remove user pair => if user ∈ pair ∧ (S.bond pair).isSome then some (S.tie pair none) else none
  | .join newcomer host =>
      if S.member newcomer then none else
        match host with
        | none => some (S.welcome newcomer)
        | some host =>
            if S.member host then some ((S.welcome newcomer).tie s(host, newcomer) (some .friends))
            else none
  | .wait => some S
  | .stray => none

def attempt (deed : Deed) (S : Society) : Bool × Society :=
  ((S.outcome deed).isSome, (S.outcome deed).getD S)

theorem attempt_some {S S' : Society} {deed : Deed} (h : S.outcome deed = some S') :
    S.attempt deed = (true, S') := by
  rw [attempt, h]
  rfl

theorem attempt_none {S : Society} {deed : Deed} (h : S.outcome deed = none) :
    S.attempt deed = (false, S) := by
  rw [attempt, h]
  rfl

-- Only members are tied to each other.
def Closed (S : Society) : Prop := ∀ pair, (S.bond pair).isSome → ∀ u ∈ pair, S.member u

variable {S : Society}

theorem tie_self (S : Society) (pair : Sym2 Id) (bond : Option Bond) :
    (S.tie pair bond).bond pair = bond := by simp [tie]

theorem tie_ne {pair pair' : Sym2 Id} (h : pair' ≠ pair) (bond : Option Bond) :
    (S.tie pair bond).bond pair' = S.bond pair' := by simp [tie, h]

theorem tie_tie (S : Society) (pair : Sym2 Id) (bond bond' : Option Bond) :
    (S.tie pair bond).tie pair bond' = S.tie pair bond' := by simp [tie]

theorem member_welcome_self (S : Society) (newcomer : Id) :
    (S.welcome newcomer).member newcomer = true := by simp [welcome]

theorem member_welcome (newcomer : Id) {u : Id} (h : S.member u) :
    (S.welcome newcomer).member u := by
  by_cases he : u = newcomer
  · rw [he, member_welcome_self]
  · simpa [welcome, he] using h

theorem Closed.tie (h : S.Closed) {pair : Sym2 Id} (hpair : ∀ u ∈ pair, S.member u)
    (bond : Option Bond) : (S.tie pair bond).Closed := by
  intro pair' hbond
  by_cases he : pair' = pair
  · exact he ▸ hpair
  · rw [tie_ne he] at hbond
    exact h pair' hbond

theorem Closed.welcome (h : S.Closed) (newcomer : Id) : (S.welcome newcomer).Closed :=
  fun pair hbond u hu => member_welcome newcomer (h pair hbond u hu)

theorem forall_mem_pair {a b : Id} (ha : S.member a) (hb : S.member b) :
    ∀ u ∈ s(a, b), S.member u := by
  intro u hu
  rcases Sym2.mem_iff.mp hu with rfl | rfl
  · exact ha
  · exact hb

theorem Closed.outcome {S' : Society} (h : S.Closed) {deed : Deed}
    (hdeed : S.outcome deed = some S') : S'.Closed := by
  cases deed with
  | ask asker asked =>
      obtain ⟨⟨_, _, hasker, hasked⟩, hS'⟩ := Option.ite_none_right_eq_some.mp hdeed
      cases hS'
      exact h.tie (forall_mem_pair hasker hasked) _
  | accept user pair =>
      simp only [Society.outcome] at hdeed
      split at hdeed
      · rename_i asker hbond
        obtain ⟨_, hS'⟩ := Option.ite_none_right_eq_some.mp hdeed
        cases hS'
        exact h.tie (h pair (Option.isSome_of_eq_some hbond)) _
      · cases hdeed
  | block user other =>
      obtain ⟨hallowed, hS'⟩ := Option.ite_none_right_eq_some.mp hdeed
      cases hS'
      refine h.tie ?_ _
      rcases hallowed with hbond | ⟨huser, hother⟩
      · exact h _ hbond
      · exact forall_mem_pair huser hother
  | remove user pair =>
      obtain ⟨⟨_, hbond⟩, hS'⟩ := Option.ite_none_right_eq_some.mp hdeed
      cases hS'
      exact h.tie (h pair hbond) none
  | join newcomer host =>
      obtain ⟨_, hjoins⟩ := Option.ite_none_left_eq_some.mp hdeed
      cases host with
      | none =>
          cases hjoins
          exact h.welcome newcomer
      | some host =>
          obtain ⟨hhost, hS'⟩ := Option.ite_none_right_eq_some.mp hjoins
          cases hS'
          refine (h.welcome newcomer).tie (forall_mem_pair ?_ ?_) _
          · exact member_welcome newcomer hhost
          · exact member_welcome_self S newcomer
  | wait =>
      cases hdeed
      exact h
  | stray => cases hdeed

theorem Closed.attempt (h : S.Closed) (deed : Deed) : (S.attempt deed).2.Closed := by
  unfold Society.attempt
  cases hdeed : S.outcome deed with
  | none => exact h
  | some S' => exact h.outcome hdeed

end Society

end SideQuest
