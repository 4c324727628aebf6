import SideQuest.Ratings.Summary
import Mathlib.Data.List.Perm.Subperm
import Mathlib.Algebra.Order.BigOperators.Group.List
import Mathlib.Tactic.Linarith

-- Summaries in range: whatever transactions overlap, a quest shows no average without a count,
-- no average outside the scale and no more ratings than there are users.

namespace SideQuest

namespace Ratings

open ReadCommitted

-- `@Min(1) @Max(5)`
def OnScale (score : ℤ) : Prop := 1 ≤ score ∧ score ≤ 5

instance (score : ℤ) : Decidable (OnScale score) := inferInstanceAs (Decidable (_ ∧ _))

def SummaryInRange (users : ℕ) (avg : Option ℚ) (count : ℕ) : Prop :=
  count ≤ users ∧ (avg = none ↔ count = 0) ∧ ∀ a, avg = some a → 1 ≤ a ∧ a ≤ 5

structure InRange (w : World) : Prop where
  scores : ∀ r ∈ w.ratings.rows, OnScale r.score
  raters : ∀ r ∈ w.ratings.rows, r.userId ∈ w.users.rows.map User.id
  summaries : ∀ quest ∈ w.quests.rows,
    SummaryInRange w.users.rows.length quest.ratingAvg quest.ratingCount

-- The requests that pass the validation.
inductive ValidRequest : Request Unit → Prop
  | rate (userId questId : Id) (dto : RateQuestDto) (h : OnScale dto.score) :
      ValidRequest (rate userId questId dto)
  | unrate (userId questId : Id) : ValidRequest (unrate userId questId)

section Aggregates

variable {w : World}

theorem average_onScale {scores : List ℤ} (h : ∀ score ∈ scores, OnScale score) {a : ℚ}
    (ha : average scores = some a) : 1 ≤ a ∧ a ≤ 5 := by
  unfold average at ha
  split at ha
  · cases ha
  · rename_i hne
    cases ha
    have hpos : (0 : ℚ) < scores.length := by exact_mod_cast List.length_pos_iff.mpr hne
    have hlow : (scores.length : ℤ) * 1 ≤ scores.sum := by
      simpa using List.card_nsmul_le_sum scores 1 fun score hs => (h score hs).1
    have hhigh : scores.sum ≤ (scores.length : ℤ) * 5 := by
      simpa using List.sum_le_card_nsmul scores 5 fun score hs => (h score hs).2
    constructor
    · rw [le_div_iff₀ hpos]
      exact_mod_cast (by linarith : (1 : ℤ) * scores.length ≤ scores.sum)
    · rw [div_le_iff₀ hpos]
      exact_mod_cast (by linarith : scores.sum ≤ 5 * (scores.length : ℤ))

-- Nobody rates a quest twice.
theorem count_le_users (h : ∀ r ∈ w.ratings.rows, r.userId ∈ w.users.rows.map User.id)
    (questId : Id) : (w.scoresOf questId).length ≤ w.users.rows.length := by
  let rated := w.ratings.rows.filter fun r => r.questId = questId
  have hnodup : (rated.map QuestRating.userId).Nodup := by
    refine List.Nodup.map_on (fun r hr r' hr' huser => ?_) ((w.ratings.nodup.of_map).filter _)
    obtain ⟨hmem, hquest⟩ := List.mem_filter.mp hr
    obtain ⟨hmem', hquest'⟩ := List.mem_filter.mp hr'
    refine List.inj_on_of_nodup_map w.ratings.nodup hmem hmem' (Prod.ext huser ?_)
    exact (of_decide_eq_true hquest).trans (of_decide_eq_true hquest').symm
  have hsubset : rated.map QuestRating.userId ⊆ w.users.rows.map User.id := by
    intro userId hmem
    obtain ⟨r, hr, rfl⟩ := List.mem_map.mp hmem
    exact h r (List.mem_of_mem_filter hr)
  have hlength := (List.subperm_of_subset hnodup hsubset).length_le
  simpa [World.scoresOf, rated] using hlength

theorem InRange.aggregate (h : InRange w) (questId : Id) :
    SummaryInRange w.users.rows.length (w.aggregate questId).avg (w.aggregate questId).count := by
  refine ⟨count_le_users h.raters questId, ?_, fun a ha => average_onScale ?_ ha⟩
  · show average (w.scoresOf questId) = none ↔ (w.scoresOf questId).length = 0
    unfold average
    split <;> simp_all
  · intro score hscore
    obtain ⟨r, hr, rfl⟩ := List.mem_map.mp hscore
    exact h.scores r (List.mem_of_mem_filter hr)

end Aggregates

-- What a transaction may write.
def Write.InRange (users : Table User.id) : Write → Prop
  | .ratingCreate row => OnScale row.score ∧ row.userId ∈ users.rows.map User.id
  | .ratingUpdate _ _ d => OnScale d.score
  | .ratingDelete _ _ => True
  | .questUpdate _ d => SummaryInRange users.rows.length d.ratingAvg d.ratingCount

section Writes

variable {w : World} {ws : List Write}

theorem InRange.apply (h : InRange w) {wr : Write} (hwr : wr.InRange w.users) :
    InRange (w.apply wr) := by
  cases wr with
  | ratingCreate row =>
      refine ⟨fun r hr => ?_, fun r hr => ?_, h.summaries⟩
      · rcases Table.mem_of_mem_insert hr with hold | rfl
        · exact h.scores r hold
        · exact hwr.1
      · rcases Table.mem_of_mem_insert hr with hold | rfl
        · exact h.raters r hold
        · exact hwr.2
  | ratingUpdate u q d =>
      refine ⟨fun r hr => ?_, fun r hr => ?_, h.summaries⟩
      · obtain ⟨row, hrow, rfl⟩ := List.mem_map.mp hr
        split
        · exact hwr
        · exact h.scores row hrow
      · obtain ⟨row, hrow, rfl⟩ := List.mem_map.mp hr
        have hold := h.raters row hrow
        split <;> exact hold
  | ratingDelete u q =>
      have hsub : ∀ r ∈ (w.ratings.erase (u, q)).rows, r ∈ w.ratings.rows := fun r hr =>
        List.mem_of_mem_filter hr
      exact ⟨fun r hr => h.scores r (hsub r hr), fun r hr => h.raters r (hsub r hr), h.summaries⟩
  | questUpdate id d =>
      refine ⟨h.scores, h.raters, fun quest hquest => ?_⟩
      obtain ⟨row, hrow, rfl⟩ := List.mem_map.mp hquest
      split
      · exact hwr
      · exact h.summaries row hrow

theorem users_apply (w : World) (wr : Write) : (w.apply wr).users = w.users := by
  cases wr <;> rfl

theorem InRange.view (h : InRange w) (hws : ∀ wr ∈ ws, wr.InRange w.users) :
    InRange (view Stmt w ws) ∧ (view Stmt w ws).users = w.users := by
  induction ws generalizing w with
  | nil => exact ⟨h, rfl⟩
  | cons wr ws ih =>
      have husers : (w.apply wr).users = w.users := users_apply w wr
      have hrest := ih (h.apply (hws wr List.mem_cons_self))
        fun wr' hwr' => husers ▸ hws wr' (List.mem_cons_of_mem _ hwr')
      exact ⟨hrest.1, hrest.2.trans husers⟩

theorem inRange_ratingUpsert {userId questId : Id} {score : ℤ} {comment : Option String} {a : Unit}
    (hscore : OnScale score)
    (h : Stmt.exec (.ratingUpsert userId questId score comment) w = .ok (a, ws)) :
    ∀ wr ∈ ws, wr.InRange w.users := by
  simp only [Stmt.exec] at h
  split at h
  · cases h
    simpa [Write.InRange] using hscore
  · split at h
    · cases h
    · rename_i hfound
      cases h
      rw [not_or, Option.isNone_iff_eq_none, ← Table.notMem_keys_iff, Classical.not_not] at hfound
      exact fun wr hwr => List.mem_singleton.mp hwr ▸ ⟨hscore, hfound.1⟩

theorem inRange_ratingDeleteMany {userId questId : Id} {n : ℕ}
    (h : Stmt.exec (.ratingDeleteMany userId questId) w = .ok (n, ws)) :
    ∀ wr ∈ ws, wr.InRange w.users := by
  simp only [Stmt.exec] at h
  split at h <;> cases h <;> simp [Write.InRange]

end Writes

-- In range, for the users of the start.
abbrev rangeContract (users : Table User.id) : Contract Stmt World Write :=
  .ofInv (fun s => InRange s.db ∧ s.db.users = users) Guard.none

section Requests

variable {me : ℕ} {userId questId : Id} {users : Table User.id} {s : Store World Write}

-- The end of both transactions, with what they have written before.
theorem wpTx_range {ws : List Write} {seen : List (Seen Stmt)} {data : Aggregate → QuestUpdate}
    (hdata : ∀ w : World, data (w.aggregate questId) =
      ⟨(w.aggregate questId).avg, (w.aggregate questId).count⟩)
    (hws : ∀ wr ∈ ws, wr.InRange users) :
    (rangeContract users).rules.wpTx me
      (fun _ ws _ s' => (rangeContract users).rules.Commits me s' ws)
      (do
        let agg ← tx (.ratingAggregate questId)
        tx (.questUpdate questId (data agg))) seen ws s := by
  have haggregate (w : World) : Backend.exec (Stmt.ratingAggregate questId) w =
      .ok (w.aggregate questId, []) := rfl
  refine Rules.wpTx_query haggregate fun s₁ h₁ => ?_
  obtain ⟨hrange₁, husers₁⟩ := Rules.rely_inv _ h₁
  obtain ⟨hview, husersView⟩ := hrange₁.view fun wr hwr => husers₁ ▸ hws wr hwr
  intro s₂ _ _ _ ws' he s₃ h₃
  obtain ⟨_, rfl⟩ := exec_questUpdate he
  obtain ⟨hrange₃, husers₃⟩ := Rules.rely_inv _ h₃
  have hsummary := hview.aggregate questId
  rw [husersView, husers₁] at hsummary
  have hall : ∀ wr ∈ ws ++ [.questUpdate questId (data ((view Stmt s₁.db ws).aggregate questId))],
      wr.InRange s₃.db.users := by
    intro wr hwr
    rw [husers₃]
    rcases List.mem_append.mp hwr with hold | hnew
    · exact hws wr hold
    · rw [List.mem_singleton.mp hnew, hdata]
      exact hsummary
  obtain ⟨hrange, husers⟩ := hrange₃.view hall
  refine ⟨?_, trivial⟩
  show InRange _ ∧ _
  rw [Store.commit_db]
  exact ⟨hrange, husers.trans husers₃⟩

theorem ValidRequest.wp_range {p : Request Unit} (hp : ValidRequest p) :
    (rangeContract users).rules.wp me (fun _ _ => True) p s := by
  cases hp with
  | rate userId questId dto hscore =>
      unfold Ratings.rate
      refine Rules.wp_query (fun _ => rfl) fun s₁ _ => Rules.wp_expect fun _ _ => ?_
      refine Rules.wpTx_mono (fun _ _ _ _ hc => ⟨hc, fun _ _ => trivial⟩) ?_
      unfold rateTx
      refine Rules.wpTx_call fun s₂ h₂ _ _ ws he => ?_
      obtain ⟨_, husers⟩ := Rules.rely_inv _ h₂
      exact wpTx_range (fun _ => rfl) fun wr hwr => husers ▸ inRange_ratingUpsert hscore he wr hwr
  | unrate userId questId =>
      unfold Ratings.unrate
      refine Rules.wp_query (fun _ => rfl) fun s₁ _ => Rules.wp_expect fun _ _ => ?_
      refine Rules.wpTx_mono (fun _ _ _ _ hc => ⟨hc, fun _ _ => trivial⟩) ?_
      unfold unrateTx
      refine Rules.wpTx_call fun s₂ h₂ _ _ ws he => ?_
      obtain ⟨_, husers⟩ := Rules.rely_inv _ h₂
      exact wpTx_range (fun w => by rw [aggregate_avg])
        fun wr hwr => husers ▸ inRange_ratingDeleteMany he wr hwr

end Requests

-- Also while summaries are overtaken by ratings that they have not seen.
theorem inRange_of_reaches {w : World} (hw : InRange w) {s : System Stmt World Write ApiError}
    (h : System.Reaches ValidRequest Guard.none (System.init w) s) : InRange s.store.db := by
  have hsafe := System.Reaches.safe (C := rangeContract w.users)
    (fun p hp me st _ => hp.wp_range) (fun a => a.elim) (System.init_safe ⟨hw, rfl⟩) h
  exact hsafe.1.inv.1

-- Two hikers rate at once: the stale average is one of the scale all the same.
theorem inRange_two_raters : ∃ s : System Stmt World Write ApiError,
    InRange s.store.db ∧ s.store.db.quests.rows = [⟨1, some 2, 1⟩] ∧
      s.store.db.scoresOf 1 = [5, 2] := by
  obtain ⟨s, hs, hobs⟩ := System.exists_reaches_of_interleave ValidRequest Guard.none
    (System.init unrated) [rate 1 1 ⟨5, none⟩, rate 2 1 ⟨2, none⟩]
    [0, 0, 0, 0, 1, 1, 1, 1, 0, 0, 1, 1]
    (fun s => (s.store.db.quests.rows, s.store.db.scoresOf 1)) ([⟨1, some 2, 1⟩], [5, 2])
    (by simpa using ⟨.rate 1 1 ⟨5, none⟩ (by decide), .rate 2 1 ⟨2, none⟩ (by decide)⟩)
    (by decide +kernel)
  have hunrated : InRange unrated :=
    ⟨by decide, by decide, fun quest hquest => by
      rw [List.mem_singleton.mp hquest]
      exact ⟨Nat.zero_le _, by simp, by simp⟩⟩
  obtain ⟨hquests, hscores⟩ := Prod.mk.inj hobs
  exact ⟨s, inRange_of_reaches hunrated hs, hquests, hscores⟩

end Ratings

end SideQuest
