import SideQuest.Lib.Rely

-- Soundness for interleavings: when every request keeps a contract on its own, every
-- state that any number of them reaches keeps it.

namespace ReadCommitted

-- An invariant of the committed store, a transitive bound on what a commit changes,
-- and the guard of the runs looked at.
structure Contract (Stmt : Type → Type) (σ ω : Type) where
  inv : Store σ ω → Prop
  guar : Store σ ω → Store σ ω → Prop
  guard : Guard Stmt σ
  guar_refl : ∀ s, guar s s
  guar_trans : ∀ {s s' s''}, guar s s' → guar s' s'' → guar s s''

-- A contract that bounds no change.
def Contract.ofInv {Stmt : Type → Type} {σ ω : Type} (inv : Store σ ω → Prop)
    (guard : Guard Stmt σ) : Contract Stmt σ ω where
  inv := inv
  guar _ _ := True
  guard := guard
  guar_refl _ := trivial
  guar_trans _ _ := trivial

variable {Stmt : Type → Type} {σ ω ℓ ε η : Type} [Backend Stmt σ ω ℓ ε η] [LawfulBackend Stmt]

-- The other threads keep the contract, leave the locked rows alone and commit under
-- their own names.
def Contract.rules (C : Contract Stmt σ ω) : Rules Stmt where
  inv := C.inv
  rely me locks s s' := C.inv s' ∧ C.guar s s' ∧
    (∀ l ∈ locks, LawfulBackend.same Stmt l s.db s'.db) ∧ s'.own me = s.own me
  guar := C.guar
  guard := C.guard
  guar_refl := C.guar_refl
  rely_inv h := h.1
  rely_same h := h.2.2.1
  rely_refl h := ⟨h, C.guar_refl _, fun _ _ => LawfulBackend.same_refl _ _, rfl⟩
  rely_trans h h' := ⟨h'.1, C.guar_trans h.2.1 h'.2.1,
    fun l hl => LawfulBackend.same_trans (h.2.2.1 l hl) (h'.2.2.1 l hl),
    h'.2.2.2.trans h.2.2.2⟩

variable {C : Contract Stmt σ ω}

theorem rely_commit {me other : Nat} (hne : me ≠ other) {s : Store σ ω} {ws : List ω}
    (hc : C.rules.Commits me s ws) {locks : List ℓ}
    (hfree : ∀ l ∈ locks, l ∉ locksOf Stmt ws) :
    C.rules.rely other locks s (s.commit Stmt me ws) := by
  refine ⟨hc.1, hc.2, ?_, Store.own_commit_ne s hne ws⟩
  intro l hl
  rw [Store.commit_db]
  exact same_view (hfree l hl) s.db

-- What a thread still has to do is fine from the current store on.
def Thread.Safe (C : Contract Stmt σ ω) (me : Nat) (s : Store σ ω) : Thread Stmt ω ε → Prop
  | .run p => C.rules.wp me (fun _ _ => True) p s
  | .tx seen ws body k =>
      C.rules.wpTx me (fun _ ws b s' => C.rules.Commits me s' ws ∧
        C.rules.wp me (fun _ _ => True) (k b) (s'.commit Stmt me ws)) body seen ws s

theorem Thread.Safe.weaken {me : Nat} {s s' : Store σ ω} {t : Thread Stmt ω ε}
    (h : t.Safe C me s) (hr : C.rules.rely me t.held s s') : t.Safe C me s' := by
  cases t with
  | run p => exact Rules.wp_weaken h hr
  | tx seen ws body k => exact Rules.wpTx_weaken h hr

-- Threads that are good from the current store on, and hold different locks.
structure System.Sound (R : Rules Stmt) (good : Nat → Store σ ω → Thread Stmt ω ε → Prop)
    (s : System Stmt σ ω ε) : Prop where
  inv : R.inv s.store
  threads : ∀ (i : Nat) (t : Thread Stmt ω ε), s.threads[i]? = some t → good i s.store t
  exclusive : ∀ (i j : Nat) (t t' : Thread Stmt ω ε), i ≠ j → s.threads[i]? = some t →
    s.threads[j]? = some t' → ∀ l ∈ t.held, l ∉ t'.held

namespace System

variable {R : Rules Stmt} {good good' : Nat → Store σ ω → Thread Stmt ω ε → Prop}
  {s : System Stmt σ ω ε}

-- One thread moves on, and the others can live with what it did to the store.
theorem Sound.replace (h : s.Sound R good) {i : Nat} {t : Thread Stmt ω ε} {st : Store σ ω}
    (hinv : R.inv st) (ht : good' i st t)
    (hothers : ∀ j tj, i ≠ j → s.threads[j]? = some tj → good' j st tj)
    (hlocks : ∀ j tj, i ≠ j → s.threads[j]? = some tj → ∀ l ∈ t.held, l ∉ tj.held) :
    Sound R good' { s.set i t with store := st } := by
  have hget : ∀ j tj, (s.threads.set i t)[j]? = some tj →
      (i = j ∧ tj = t) ∨ (i ≠ j ∧ s.threads[j]? = some tj) := by
    intro j tj hj
    rw [List.getElem?_set] at hj
    split_ifs at hj with hij hlt
    · exact Or.inl ⟨hij, (Option.some.inj hj).symm⟩
    · exact Or.inr ⟨hij, hj⟩
  refine ⟨hinv, ?_, ?_⟩
  · intro j tj hj
    rcases hget j tj hj with ⟨rfl, rfl⟩ | ⟨hij, hj⟩
    · exact ht
    · exact hothers j tj hij hj
  · intro j k tj tk hjk hj hk l hl hl'
    rcases hget j tj hj with ⟨rfl, rfl⟩ | ⟨hij, hj'⟩
    · rcases hget k tk hk with ⟨rfl, rfl⟩ | ⟨hik, hk'⟩
      · exact hjk rfl
      · exact hlocks k tk hik hk' l hl hl'
    · rcases hget k tk hk with ⟨rfl, rfl⟩ | ⟨hik, hk'⟩
      · exact hlocks j tj hij hj' l hl' hl
      · exact h.exclusive j k tj tk hjk hj' hk' l hl hl'

theorem Sound.spawn (h : s.Sound R good) {p : Prog Stmt ε Unit}
    (hp : good s.threads.length s.store (.run p)) : (s.spawn p).Sound R good := by
  have hget : ∀ j tj, (s.threads ++ [.run p])[j]? = some tj →
      s.threads[j]? = some tj ∨ (j = s.threads.length ∧ tj = .run p) := by
    intro j tj hj
    by_cases hlt : j < s.threads.length
    · exact Or.inl (by rwa [List.getElem?_append_left hlt] at hj)
    · rw [List.getElem?_append_right (by omega)] at hj
      have hzero : j - s.threads.length = 0 := by
        by_contra hne
        rw [List.getElem?_eq_none (by simp only [List.length_singleton]; omega)] at hj
        cases hj
      rw [hzero] at hj
      exact Or.inr ⟨by omega, (Option.some.inj hj).symm⟩
  refine ⟨h.inv, ?_, ?_⟩
  · intro j tj hj
    rcases hget j tj hj with hj | ⟨rfl, rfl⟩
    · exact h.threads j tj hj
    · exact hp
  · intro j k tj tk hjk hj hk l hl hl'
    rcases hget j tj hj with hj | ⟨rfl, rfl⟩
    · rcases hget k tk hk with hk | ⟨rfl, rfl⟩
      · exact h.exclusive j k tj tk hjk hj hk l hl hl'
      · cases hl'
    · cases hl

end System

structure System.Safe (C : Contract Stmt σ ω) (s : System Stmt σ ω ε) : Prop where
  inv : C.inv s.store
  threads : ∀ (i : Nat) (t : Thread Stmt ω ε), s.threads[i]? = some t → t.Safe C i s.store
  exclusive : ∀ (i j : Nat) (t t' : Thread Stmt ω ε), i ≠ j → s.threads[i]? = some t →
    s.threads[j]? = some t' → ∀ l ∈ t.held, l ∉ t'.held

namespace System

variable {s : System Stmt σ ω ε}

theorem safe_iff_sound : s.Safe C ↔ s.Sound C.rules fun i st t => t.Safe C i st :=
  ⟨fun h => ⟨h.inv, h.threads, h.exclusive⟩, fun h => ⟨h.inv, h.threads, h.exclusive⟩⟩

theorem Safe.replace (h : s.Safe C) {i : Nat} {t : Thread Stmt ω ε} {st : Store σ ω}
    (hinv : C.inv st) (ht : t.Safe C i st)
    (hothers : ∀ j tj, i ≠ j → s.threads[j]? = some tj → C.rules.rely j tj.held s.store st)
    (hlocks : ∀ j tj, i ≠ j → s.threads[j]? = some tj → ∀ l ∈ t.held, l ∉ tj.held) :
    Safe C { s.set i t with store := st } :=
  safe_iff_sound.mpr ((safe_iff_sound.mp h).replace hinv ht
    (fun j tj hij hj => (h.threads j tj hj).weaken (hothers j tj hij hj)) hlocks)

-- Without a commit only the thread itself changes.
theorem Safe.stay (h : s.Safe C) {i : Nat} {t : Thread Stmt ω ε} (ht : t.Safe C i s.store)
    (hlocks : ∀ j tj, i ≠ j → s.threads[j]? = some tj → ∀ l ∈ t.held, l ∉ tj.held) :
    (s.set i t).Safe C :=
  h.replace h.inv ht (fun _ _ _ _ => C.rules.rely_refl h.inv) hlocks

theorem Safe.kill (h : s.Safe C) (i : Nat) (e : ε) : (s.kill i e).Safe C :=
  h.stay trivial fun _ _ _ _ _ hl => absurd hl List.not_mem_nil

theorem Safe.commit (h : s.Safe C) {i : Nat} {t : Thread Stmt ω ε} {ws : List ω}
    (hc : C.rules.Commits i s.store ws) (ht : t.Safe C i (s.store.commit Stmt i ws))
    (hfree : ∀ j tj, i ≠ j → s.threads[j]? = some tj → ∀ l ∈ tj.held, l ∉ locksOf Stmt ws)
    (hheld : t.held = ([] : List ℓ)) :
    Safe C { s.set i t with store := s.store.commit Stmt i ws } := by
  apply h.replace hc.1 ht
  · exact fun j tj hij hj => rely_commit hij hc (hfree j tj hij hj)
  · intro j tj _ _ l hl
    rw [hheld] at hl
    cases hl

theorem Safe.happen (h : s.Safe C) (a : η)
    (ha : C.inv (s.happen a).store ∧ C.guar s.store (s.happen a).store) : (s.happen a).Safe C where
  inv := ha.1
  threads i t ht := (h.threads i t ht).weaken
    ⟨ha.1, ha.2, fun l _ => LawfulBackend.same_happen l _ a, rfl⟩
  exclusive := h.exclusive

theorem Safe.spawn (h : s.Safe C) {p : Prog Stmt ε Unit}
    (hp : C.rules.wp s.threads.length (fun _ _ => True) p s.store) : (s.spawn p).Safe C :=
  safe_iff_sound.mpr ((safe_iff_sound.mp h).spawn hp)

variable [DecidableEq ℓ]

omit [LawfulBackend Stmt] in
theorem free_iff {i : Nat} {ws : List ω} :
    s.free i ws = true ↔ ∀ j tj, i ≠ j → s.threads[j]? = some tj →
      ∀ l ∈ locksOf Stmt ws, l ∉ tj.held := by
  simp only [free, List.all_eq_true, decide_eq_true_eq, List.mem_eraseIdx_iff_getElem?]
  constructor
  · exact fun h j tj hij hj => h tj ⟨j, Ne.symm hij, hj⟩
  · rintro h tj ⟨j, hji, hj⟩
    exact h j tj (Ne.symm hji) hj

-- One step of one thread, by the kind of its next statement.
theorem Safe.next (h : s.Safe C) {i : Nat} {s' : System Stmt σ ω ε}
    (hg : s.meets C.guard i = true) (hn : s.next i = some s') :
    s'.Safe C ∧ C.guar s.store s'.store := by
  unfold System.next at hn
  unfold System.meets at hg
  have hstay := C.guar_refl s.store
  have hrefl : ∀ locks, C.rules.rely i locks s.store s.store := fun _ => C.rules.rely_refl h.inv
  split at hn
  · cases hn
  · cases hn
  · cases hn
  · rename_i st k hi
    rw [hi] at hg
    have hsafe := h.threads i _ hi
    split at hn
    · cases hn
      exact ⟨h.kill i _, hstay⟩
    · rename_i b ws he
      split at hn
      · rename_i hfree
        cases hn
        obtain ⟨hc, hk⟩ := hsafe s.store (hrefl _) hg b ws he
        refine ⟨h.commit hc hk ?_ rfl, hc.2⟩
        exact fun j tj hij hj l hl hl' => free_iff.mp hfree j tj hij hj l hl' hl
      · cases hn
  · rename_i body k hi
    cases hn
    have hsafe := h.threads i _ hi
    refine ⟨h.stay (t := .tx [] [] body k) hsafe ?_, hstay⟩
    exact fun _ _ _ _ _ hl => absurd hl List.not_mem_nil
  · rename_i seen ws b k hi
    cases hn
    obtain ⟨hc, hk⟩ := h.threads i _ hi s.store (hrefl _)
    refine ⟨h.commit hc hk ?_ rfl, hc.2⟩
    exact fun j tj hij hj l hl hl' => h.exclusive i j _ tj hij hi hj l hl' hl
  · cases hn
    exact ⟨h.kill i _, hstay⟩
  · rename_i seen ws _ st kb k hi
    rw [hi] at hg
    have hsafe := h.threads i _ hi
    split at hn
    · cases hn
      exact ⟨h.kill i _, hstay⟩
    · rename_i b ws' he
      split at hn
      · rename_i hfree
        cases hn
        refine ⟨h.stay (hsafe s.store (hrefl _) hg b ws' he) ?_, hstay⟩
        intro j tj hij hj l hl
        have hmem : l ∈ locksOf Stmt ws ++ locksOf Stmt ws' := by
          rw [← locksOf_append]
          exact hl
        rcases List.mem_append.mp hmem with hl | hl
        · exact h.exclusive i j _ tj hij hi hj l hl
        · exact free_iff.mp hfree j tj hij hj l hl
      · cases hn

-- The run rule: requests that each keep the contract keep it together.
theorem Reaches.safe {requests : Prog Stmt ε Unit → Prop}
    (hreq : ∀ p, requests p → ∀ me st, C.inv st → C.rules.wp me (fun _ _ => True) p st)
    (hhappen : ∀ (a : η) st, C.inv st → C.inv { st with db := Backend.happen Stmt a st.db } ∧
      C.guar st { st with db := Backend.happen Stmt a st.db })
    {s' : System Stmt σ ω ε} (hs : s.Safe C) (h : Reaches requests C.guard s s') :
    s'.Safe C ∧ C.guar s.store s'.store := by
  induction h with
  | refl => exact ⟨hs, C.guar_refl _⟩
  | spawn _ hp ih => exact ⟨ih.1.spawn (hreq _ hp _ _ ih.1.inv), ih.2⟩
  | next _ hg hn ih =>
      obtain ⟨hsafe, hguar⟩ := ih.1.next hg hn
      exact ⟨hsafe, C.guar_trans ih.2 hguar⟩
  | kill i e _ ih => exact ⟨ih.1.kill i e, ih.2⟩
  | happen a _ ih =>
      have ha := hhappen a _ ih.1.inv
      exact ⟨ih.1.happen a ha, C.guar_trans ih.2 ha.2⟩

-- The same, where each thread runs its own program.
theorem Runs.safe {program : Nat → Prog Stmt ε Unit} {s' : System Stmt σ ω ε}
    (hs : s.Safe C) (h : Runs program C.guard s s')
    (hprogram : ∀ me st, s.threads.length ≤ me → me < s'.threads.length → C.inv st →
      C.guar s.store st → C.rules.wp me (fun _ _ => True) (program me) st)
    (hhappen : ∀ (a : η) st, C.inv st → C.inv { st with db := Backend.happen Stmt a st.db } ∧
      C.guar st { st with db := Backend.happen Stmt a st.db }) :
    s'.Safe C ∧ C.guar s.store s'.store := by
  induction h with
  | refl => exact ⟨hs, C.guar_refl _⟩
  | @spawn s₁ h ih =>
      have hlength : (s₁.spawn (program s₁.threads.length)).threads.length =
          s₁.threads.length + 1 := List.length_append
      obtain ⟨hsafe, hguar⟩ := ih fun me st hle hlt =>
        hprogram me st hle (hlength ▸ Nat.lt_succ_of_lt hlt)
      have hnew := hprogram _ _ h.length_le (hlength ▸ Nat.lt_succ_self _) hsafe.inv hguar
      exact ⟨hsafe.spawn hnew, hguar⟩
  | @next s₁ s₂ i h hg hn ih =>
      obtain ⟨hsafe, hguar⟩ := ih fun me st hle hlt =>
        hprogram me st hle (length_next hn ▸ hlt)
      obtain ⟨hsafe', hguar'⟩ := hsafe.next hg hn
      exact ⟨hsafe', C.guar_trans hguar hguar'⟩
  | @kill s₁ i e h ih =>
      have hlength : (s₁.kill i e).threads.length = s₁.threads.length := List.length_set
      obtain ⟨hsafe, hguar⟩ := ih fun me st hle hlt => hprogram me st hle (hlength ▸ hlt)
      exact ⟨hsafe.kill i e, hguar⟩
  | @happen s₁ a h ih =>
      obtain ⟨hsafe, hguar⟩ := ih hprogram
      have ha := hhappen a _ hsafe.inv
      exact ⟨hsafe.happen a ha, C.guar_trans hguar ha.2⟩

omit [DecidableEq ℓ] in
theorem init_safe {db : σ} (h : C.inv ⟨db, []⟩) : (init db : System Stmt σ ω ε).Safe C where
  inv := h
  threads i t ht := by simp [init] at ht
  exclusive i j t t' _ ht := by simp [init] at ht

-- Runs amid changes that others make to the data, once no transaction holds the locks
-- for them.
inductive ReachesAmid (requests : Prog Stmt ε Unit → Prop) (g : Guard Stmt σ)
    (outside : σ → σ → Prop) (s : System Stmt σ ω ε) : System Stmt σ ω ε → Prop
  | refl : ReachesAmid requests g outside s s
  | run {s' s'' : System Stmt σ ω ε} :
      ReachesAmid requests g outside s s' → Reaches requests g s' s'' →
        ReachesAmid requests g outside s s''
  | change {s' : System Stmt σ ω ε} (db : σ) :
      ReachesAmid requests g outside s s' → outside s'.store.db db →
        (∀ t ∈ s'.threads, ∀ l ∈ t.held, LawfulBackend.same Stmt l s'.store.db db) →
          ReachesAmid requests g outside s { s' with store := { s'.store with db := db } }

omit [DecidableEq ℓ] in
theorem Safe.change (h : s.Safe C) {db : σ}
    (hdb : C.inv { s.store with db := db } ∧ C.guar s.store { s.store with db := db })
    (hlocks : ∀ t ∈ s.threads, ∀ l ∈ t.held, LawfulBackend.same Stmt l s.store.db db) :
    Safe C { s with store := { s.store with db := db } } where
  inv := hdb.1
  threads i t ht := (h.threads i t ht).weaken
    ⟨hdb.1, hdb.2, hlocks t (List.mem_of_getElem? ht), rfl⟩
  exclusive := h.exclusive

-- The run rule, where the changes from outside keep the contract as well.
theorem ReachesAmid.safe {requests : Prog Stmt ε Unit → Prop} {outside : σ → σ → Prop}
    (hreq : ∀ p, requests p → ∀ me st, C.inv st → C.rules.wp me (fun _ _ => True) p st)
    (hhappen : ∀ (a : η) st, C.inv st → C.inv { st with db := Backend.happen Stmt a st.db } ∧
      C.guar st { st with db := Backend.happen Stmt a st.db })
    (houtside : ∀ st db, C.inv st → outside st.db db →
      C.inv { st with db := db } ∧ C.guar st { st with db := db })
    {s' : System Stmt σ ω ε} (hs : s.Safe C) (h : ReachesAmid requests C.guard outside s s') :
    s'.Safe C := by
  induction h with
  | refl => exact hs
  | run _ hrun ih => exact (Reaches.safe hreq hhappen ih hrun).1
  | change db _ hchange hlocks ih => exact ih.change (houtside _ db ih.inv hchange) hlocks

end System

end ReadCommitted
