import SideQuest.Model.Ratings
import SideQuest.Lib.Interleaving
import Mathlib.Algebra.Group.Prod
import Mathlib.Algebra.Ring.Int.Defs
import Mathlib.Algebra.Field.Rat
import Mathlib.Tactic.FieldSimp

-- The summary of a quest's ratings agrees with the ratings, as long as no transaction
-- writes a summary that others have made obsolete since it was read.

namespace SideQuest

namespace Ratings

open ReadCommitted

-- What the claimed columns are.
structure Summarised (w : World) : Prop where
  count : ∀ quest ∈ w.quests.rows, quest.ratingCount = (w.scoresOf quest.id).length
  avg : ∀ quest ∈ w.quests.rows, quest.ratingAvg = average (w.scoresOf quest.id)

inductive RatingRequest : Request Unit → Prop
  | rate (userId questId : Id) (dto : RateQuestDto) : RatingRequest (rate userId questId dto)
  | unrate (userId questId : Id) : RatingRequest (unrate userId questId)

-- A summary is written while the aggregate is still what the transaction has read.
def writesFreshSummary : Guard Stmt World := fun seen _ st w =>
  match st with
  | .questUpdate id _ => seen.all fun
      | ⟨.ratingAggregate q, agg⟩ => q ≠ id ∨ agg = w.aggregate id
      | _ => true
  | _ => true

-- Number and sum of the scores, which every write changes by its own row's share.
def tally (w : World) (questId : Id) : ℕ × ℤ :=
  w.ratings.sum fun r => if r.questId = questId then (1, r.score) else 0

theorem tally_eq (w : World) (questId : Id) :
    tally w questId = ((w.scoresOf questId).length, (w.scoresOf questId).sum) := by
  unfold tally Table.sum World.scoresOf
  induction w.ratings.rows with
  | nil => rfl
  | cons r rest ih =>
      rw [List.map_cons, List.sum_cons, ih]
      by_cases hq : r.questId = questId
      · simp [hq, Nat.add_comm]
      · simp [hq]

theorem average_eq_iff {scores scores' : List ℤ} (h : scores.length = scores'.length) :
    average scores = average scores' ↔ scores.sum = scores'.sum := by
  unfold average
  by_cases hnil : scores = []
  · have hnil' : scores' = [] := by
      rw [hnil] at h
      exact List.length_eq_zero_iff.mp h.symm
    simp [hnil, hnil']
  · have hpos := List.length_pos_iff.mpr hnil
    have hnil' : scores' ≠ [] := List.length_pos_iff.mp (h ▸ hpos)
    have hne : (scores'.length : ℚ) ≠ 0 := by
      rw [← h]
      exact_mod_cast hpos.ne'
    rw [if_neg hnil, if_neg hnil', h, Option.some.injEq, div_left_inj' hne, Rat.intCast_inj]

-- The aggregate and the tally determine each other.
theorem aggregate_eq_iff {w w' : World} {questId : Id} :
    w.aggregate questId = w'.aggregate questId ↔ tally w questId = tally w' questId := by
  rw [tally_eq, tally_eq, Prod.mk.injEq, World.aggregate, World.aggregate, Aggregate.mk.injEq]
  constructor
  · exact fun ⟨havg, hcount⟩ => ⟨hcount, (average_eq_iff hcount).mp havg⟩
  · exact fun ⟨hcount, hsum⟩ => ⟨(average_eq_iff hcount).mpr hsum, hcount⟩

-- A write of the user's own rating of the quest, on data where it can be made.
inductive OwnRating (userId questId : Id) (w : World) : Write → Prop
  | create (row : QuestRating) : row.key = (userId, questId) →
      w.ratings.find? (userId, questId) = none → OwnRating userId questId w (.ratingCreate row)
  | update (row : QuestRating) (d : RatingUpdate) : w.ratings.find? (userId, questId) = some row →
      OwnRating userId questId w (.ratingUpdate userId questId d)
  | delete (row : QuestRating) : w.ratings.find? (userId, questId) = some row →
      OwnRating userId questId w (.ratingDelete userId questId)

section Tally

variable {userId questId : Id} {w w' : World} {wr : Write}

theorem OwnRating.of_same (h : OwnRating userId questId w wr)
    (hsame : w'.ratings.find? (userId, questId) = w.ratings.find? (userId, questId)) :
    OwnRating userId questId w' wr := by
  cases h with
  | create row hkey hfree => exact .create row hkey (hsame.trans hfree)
  | update row d hrow => exact .update row d (hsame.trans hrow)
  | delete row hrow => exact .delete row (hsame.trans hrow)

-- The write changes the tally by the same amount wherever the rating is the same.
theorem OwnRating.tally_add (h : OwnRating userId questId w wr)
    (hsame : w'.ratings.find? (userId, questId) = w.ratings.find? (userId, questId)) (q : Id) :
    tally (w.apply wr) q + tally w' q = tally (w'.apply wr) q + tally w q := by
  let share : QuestRating → ℕ × ℤ := fun r => if r.questId = q then (1, r.score) else 0
  cases h with
  | create row hkey hfree =>
      rw [← hkey] at hfree hsame
      have hw : tally (w.apply (.ratingCreate row)) q = tally w q + share row :=
        Table.sum_insert hfree _
      have hw' : tally (w'.apply (.ratingCreate row)) q = tally w' q + share row :=
        Table.sum_insert (hsame.trans hfree) _
      rw [hw, hw']
      abel
  | update row d hrow =>
      have hw : tally (w.apply (.ratingUpdate userId questId d)) q + share row =
          tally w q + share (d.apply row) := Table.sum_modify hrow _ d.key_apply _
      have hw' : tally (w'.apply (.ratingUpdate userId questId d)) q + share row =
          tally w' q + share (d.apply row) := Table.sum_modify (hsame.trans hrow) _ d.key_apply _
      apply add_right_cancel (b := share row)
      calc tally (w.apply (.ratingUpdate userId questId d)) q + tally w' q + share row
          = tally w q + share (d.apply row) + tally w' q := by rw [← hw]; abel
        _ = tally w' q + share (d.apply row) + tally w q := by abel
        _ = tally (w'.apply (.ratingUpdate userId questId d)) q + tally w q + share row := by
            rw [← hw']; abel
  | delete row hrow =>
      have hw : tally (w.apply (.ratingDelete userId questId)) q + share row = tally w q :=
        Table.sum_erase hrow _
      have hw' : tally (w'.apply (.ratingDelete userId questId)) q + share row = tally w' q :=
        Table.sum_erase (hsame.trans hrow) _
      rw [← hw, ← hw']
      abel

theorem OwnRating.tally_ne (h : OwnRating userId questId w wr) {q : Id} (hq : q ≠ questId) :
    tally (w.apply wr) q = tally w q := by
  have hother (row : QuestRating) (hkey : row.key = (userId, questId)) : row.questId ≠ q := by
    rw [(Prod.mk.inj hkey).2]
    exact hq.symm
  cases h with
  | create row hkey hfree =>
      rw [← hkey] at hfree
      have hsum : tally (w.apply (.ratingCreate row)) q = tally w q + _ := Table.sum_insert hfree _
      rw [hsum, if_neg (hother row hkey), add_zero]
  | update row d hrow =>
      refine Table.sum_modify_of_eq _ _ _ d.key_apply _ fun a ha => ?_
      have ha' := hother a (Table.key_of_find? ha)
      simp [RatingUpdate.apply, ha']
  | delete row hrow =>
      have hsum : tally (w.apply (.ratingDelete userId questId)) q + _ = tally w q :=
        Table.sum_erase hrow _
      rwa [if_neg (hother row (Table.key_of_find? hrow)), add_zero] at hsum

end Tally

-- What a transaction has written before it reads the aggregate: its own rating, if there
-- is something to write.
def OwnWrites (userId questId : Id) (w : World) (ws : List Write) : Prop :=
  ws = [] ∨ ∃ wr, ws = [wr] ∧ OwnRating userId questId w wr

section Commit

variable {userId questId : Id} {ws : List Write}

theorem Summarised.aggregate_eq {w : World} (h : Summarised w) {id : Id} {quest : RatedQuest}
    (hquest : w.quests.find? id = some quest) :
    w.aggregate id = ⟨quest.ratingAvg, quest.ratingCount⟩ := by
  have hmem := Table.mem_of_find? hquest
  have hid : quest.id = id := Table.key_of_find? hquest
  rw [World.aggregate, h.avg quest hmem, h.count quest hmem, hid]

theorem summarised_iff {w : World} : Summarised w ↔
    ∀ id quest, w.quests.find? id = some quest →
      w.aggregate id = ⟨quest.ratingAvg, quest.ratingCount⟩ := by
  refine ⟨fun h id quest hquest => h.aggregate_eq hquest, fun h => ⟨?_, ?_⟩⟩
  · intro quest hmem
    exact (congrArg Aggregate.count (h quest.id quest (Table.find?_of_mem hmem))).symm
  · intro quest hmem
    exact (congrArg Aggregate.avg (h quest.id quest (Table.find?_of_mem hmem))).symm

-- The locked row of the quest keeps the others from committing ratings of it.
theorem tally_view_of_locked {w w' : World} (h : Summarised w) (h' : Summarised w')
    {quest : RatedQuest} (hquest : w.quests.find? questId = some quest)
    (hsame : w'.quests.find? questId = w.quests.find? questId)
    (hown : OwnWrites userId questId w ws)
    (hrating : ws ≠ [] →
      w'.ratings.find? (userId, questId) = w.ratings.find? (userId, questId)) :
    tally (view Stmt w' ws) questId = tally (view Stmt w ws) questId := by
  have htally : tally w' questId = tally w questId := by
    rw [← aggregate_eq_iff, h'.aggregate_eq (hsame.trans hquest), h.aggregate_eq hquest]
  rcases hown with rfl | ⟨wr, rfl, hown⟩
  · exact htally
  · have hadd := hown.tally_add (hrating (List.cons_ne_nil _ _)) questId
    rw [htally] at hadd
    exact (add_right_cancel hadd).symm

theorem quests_view_own {w : World} (hown : OwnWrites userId questId w ws) :
    (view Stmt w ws).quests = w.quests := by
  rcases hown with rfl | ⟨wr, rfl, hown⟩
  · rfl
  · cases hown <;> rfl

-- The commit of a rating with a summary that is the aggregate after it.
theorem Summarised.commit {w : World} (h : Summarised w) (hown : OwnWrites userId questId w ws)
    {d : QuestUpdate} (hd : (view Stmt w ws).aggregate questId = ⟨d.ratingAvg, d.ratingCount⟩) :
    Summarised (view Stmt w (ws ++ [.questUpdate questId d])) := by
  rw [summarised_iff]
  intro id quest hquest
  have hquests : (view Stmt w (ws ++ [.questUpdate questId d])).quests =
      w.quests.modify questId d.apply d.id_apply := by
    rw [view_append, ← quests_view_own hown]
    rfl
  have haggregate (id : Id) : (view Stmt w (ws ++ [.questUpdate questId d])).aggregate id =
      (view Stmt w ws).aggregate id := by
    rw [view_append]
    rfl
  rw [hquests, Table.find?_modify] at hquest
  rw [haggregate]
  split at hquest
  · rename_i hid
    obtain ⟨before, _, rfl⟩ := Option.map_eq_some_iff.mp hquest
    rw [hid, hd]
    rfl
  · rename_i hid
    rw [← h.aggregate_eq hquest]
    rcases hown with rfl | ⟨wr, rfl, hown⟩
    · rfl
    · exact aggregate_eq_iff.mpr (hown.tally_ne hid)

end Commit

abbrev summaryContract : Contract Stmt World Write :=
  .ofInv (fun s => Summarised s.db) writesFreshSummary

variable {me : ℕ} {userId questId : Id} {s : Store World Write}

theorem OwnWrites.of_same {w w' : World} {ws : List Write} (h : OwnWrites userId questId w ws)
    (hsame : ws ≠ [] →
      w'.ratings.find? (userId, questId) = w.ratings.find? (userId, questId)) :
    OwnWrites userId questId w' ws := by
  rcases h with rfl | ⟨wr, rfl, hown⟩
  · exact Or.inl rfl
  · exact Or.inr ⟨wr, rfl, hown.of_same (hsame (List.cons_ne_nil _ _))⟩

theorem OwnWrites.locked {w : World} {ws : List Write} (h : OwnWrites userId questId w ws)
    (hne : ws ≠ []) : .rating userId questId ∈ locksOf Stmt ws := by
  rcases h with rfl | ⟨wr, rfl, hown⟩
  · exact absurd rfl hne
  · cases hown with
    | create row hkey hfree =>
        obtain ⟨huser, hquest⟩ := Prod.mk.inj hkey
        rw [← huser, ← hquest]
        exact List.mem_cons_self
    | update row d hrow => exact List.mem_cons_self
    | delete row hrow => exact List.mem_cons_self

theorem exec_questUpdate {w : World} {id : Id} {d : QuestUpdate} {a : Unit} {ws : List Write}
    (h : Stmt.exec (.questUpdate id d) w = .ok (a, ws)) :
    (∃ quest, w.quests.find? id = some quest) ∧ ws = [.questUpdate id d] := by
  simp only [Stmt.exec] at h
  split at h
  · rename_i quest hquest
    cases h
    exact ⟨⟨quest, hquest⟩, rfl⟩
  · cases h

-- The end of both transactions, from the read of the aggregate on.
theorem wpTx_summary {ws : List Write} {seen : List (Seen Stmt)} {data : Aggregate → QuestUpdate}
    (hdata : ∀ w : World, data (w.aggregate questId) =
      ⟨(w.aggregate questId).avg, (w.aggregate questId).count⟩)
    (hown : OwnWrites userId questId s.db ws) :
    summaryContract.rules.wpTx me (fun _ ws _ s' => summaryContract.rules.Commits me s' ws)
      (do
        let agg ← tx (.ratingAggregate questId)
        tx (.questUpdate questId (data agg))) seen ws s := by
  have hread (w : World) : Backend.exec (Stmt.ratingAggregate questId) w =
      .ok (w.aggregate questId, []) := rfl
  refine Rules.wpTx_query hread fun s₁ h₁ => ?_
  intro s₂ h₂ hguard _ ws' he s₃ h₃
  have hs₂ : Summarised s₂.db := Rules.rely_inv _ h₂
  have hs₃ : Summarised s₃.db := Rules.rely_inv _ h₃
  obtain ⟨⟨quest, hquest⟩, rfl⟩ := exec_questUpdate he
  -- the own rating is locked from its write on, the quest from its update on
  have hown₂ := hown.of_same fun hne =>
    Rules.rely_same _ (Rules.rely_trans _ h₁ h₂) _ (hown.locked hne)
  have hrating : ws ≠ [] → s₃.db.ratings.find? (userId, questId) =
      s₂.db.ratings.find? (userId, questId) := by
    intro hne
    refine Rules.rely_same _ h₃ (.rating userId questId) ?_
    rw [locksOf_append]
    exact List.mem_append_left _ (hown.locked hne)
  have hlocked : s₃.db.quests.find? questId = s₂.db.quests.find? questId := by
    refine Rules.rely_same _ h₃ (.quest questId) ?_
    rw [locksOf_append]
    exact List.mem_append_right _ List.mem_cons_self
  rw [quests_view_own hown₂] at hquest
  have hfresh : (view Stmt s₁.db ws).aggregate questId = (view Stmt s₂.db ws).aggregate questId := by
    have hall : writesFreshSummary (⟨.ratingAggregate questId, (view Stmt s₁.db ws).aggregate questId⟩
      :: seen) (.questUpdate questId (data ((view Stmt s₁.db ws).aggregate questId)))
      (view Stmt s₂.db ws) = true := hguard
    simp only [writesFreshSummary, List.all_cons, Bool.and_eq_true, decide_eq_true_eq] at hall
    exact hall.1.resolve_left (absurd rfl)
  have hnow : (view Stmt s₃.db ws).aggregate questId = (view Stmt s₁.db ws).aggregate questId := by
    rw [hfresh, aggregate_eq_iff]
    exact tally_view_of_locked hs₂ hs₃ hquest hlocked hown₂ hrating
  refine ⟨?_, trivial⟩
  show Summarised _
  rw [Store.commit_db]
  apply hs₃.commit (hown₂.of_same hrating)
  rw [hnow, hdata]

theorem exec_ratingUpsert {w : World} {score : ℤ} {comment : Option String} {a : Unit}
    {ws : List Write} (h : Stmt.exec (.ratingUpsert userId questId score comment) w = .ok (a, ws)) :
    OwnWrites userId questId w ws := by
  simp only [Stmt.exec] at h
  split at h
  · rename_i row hrow
    cases h
    exact Or.inr ⟨_, rfl, .update row _ hrow⟩
  · rename_i hfree
    split at h
    · cases h
    · cases h
      exact Or.inr ⟨_, rfl, .create _ rfl hfree⟩

theorem exec_ratingDeleteMany {w : World} {n : ℕ} {ws : List Write}
    (h : Stmt.exec (.ratingDeleteMany userId questId) w = .ok (n, ws)) :
    OwnWrites userId questId w ws := by
  simp only [Stmt.exec] at h
  split at h
  · rename_i row hrow
    cases h
    exact Or.inr ⟨_, rfl, .delete row hrow⟩
  · cases h
    exact Or.inl rfl

-- The average is null without ratings, also when nobody asks.
theorem aggregate_avg (w : World) : (if (w.aggregate questId).count > 0 then
    (w.aggregate questId).avg else none) = (w.aggregate questId).avg := by
  by_cases hnil : w.scoresOf questId = []
  · simp [World.aggregate, average, hnil]
  · exact if_pos (List.length_pos_iff.mpr hnil)

theorem wpTx_rate (dto : RateQuestDto) :
    summaryContract.rules.wpTx me (fun _ ws _ s' => summaryContract.rules.Commits me s' ws)
      (rateTx userId questId dto) [] [] s := by
  unfold rateTx
  refine Rules.wpTx_call fun s₁ _ _ _ ws he => ?_
  exact wpTx_summary (fun _ => rfl) (exec_ratingUpsert he)

theorem wpTx_unrate :
    summaryContract.rules.wpTx me (fun _ ws _ s' => summaryContract.rules.Commits me s' ws)
      (unrateTx userId questId) [] [] s := by
  unfold unrateTx
  refine Rules.wpTx_call fun s₁ _ _ _ ws he => ?_
  exact wpTx_summary (fun w => by rw [aggregate_avg]) (exec_ratingDeleteMany he)

theorem RatingRequest.wp_summary {p : Request Unit} (hp : RatingRequest p) :
    summaryContract.rules.wp me (fun _ _ => True) p s := by
  cases hp with
  | rate userId questId dto =>
      unfold Ratings.rate
      refine Rules.wp_query (fun _ => rfl) fun s₁ _ => Rules.wp_expect fun _ _ => ?_
      exact Rules.wpTx_mono (fun _ _ _ _ hc => ⟨hc, fun _ _ => trivial⟩) (wpTx_rate dto)
  | unrate userId questId =>
      unfold Ratings.unrate
      refine Rules.wp_query (fun _ => rfl) fun s₁ _ => Rules.wp_expect fun _ _ => ?_
      exact Rules.wpTx_mono (fun _ _ _ _ hc => ⟨hc, fun _ _ => trivial⟩) wpTx_unrate

-- The summary of every quest is right in every state that the requests reach.
theorem summarised_of_reaches {w : World} (hw : Summarised w) {s : System Stmt World Write ApiError}
    (h : System.Reaches RatingRequest writesFreshSummary (System.init w) s) :
    Summarised s.store.db := by
  have hsafe := System.Reaches.safe (C := summaryContract) (fun p hp me st _ => hp.wp_summary)
    (fun a => a.elim) (System.init_safe hw) h
  exact hsafe.1.inv

-- Two hikers and a quest that nobody has rated.
def unrated : World where
  users := ⟨[{ id := 1, email := "a@example.com", username := "ada", passwordHash := "x" },
    { id := 2, email := "b@example.com", username := "bob", passwordHash := "x" }], by decide⟩
  quests := ⟨[{ id := 1 }], by decide⟩
  ratings := ⟨[], by decide⟩

theorem summarised_unrated : Summarised unrated := ⟨by decide, by decide⟩

-- The second hiker rates after the first one.
theorem summarised_one_by_one : ∃ s : System Stmt World Write ApiError,
    Summarised s.store.db ∧ s.store.db.quests.rows = [⟨1, some (7 / 2), 2⟩] := by
  obtain ⟨s, hs, hobs⟩ := System.exists_reaches_of_interleave RatingRequest writesFreshSummary
    (System.init unrated) [rate 1 1 ⟨5, none⟩, rate 2 1 ⟨2, none⟩]
    [0, 0, 0, 0, 0, 0, 1, 1, 1, 1, 1, 1] (fun s => s.store.db.quests.rows) [⟨1, some (7 / 2), 2⟩]
    (by simpa using ⟨.rate 1 1 ⟨5, none⟩, .rate 2 1 ⟨2, none⟩⟩) (by decide +kernel)
  exact ⟨s, summarised_of_reaches summarised_unrated hs, hobs⟩

-- Both read the aggregate before either rating is committed. The second one then writes
-- its own rating as the only one.
theorem not_summarised_two_raters : ∃ s : System Stmt World Write ApiError,
    System.Reaches RatingRequest Guard.none (System.init unrated) s ∧
      s.threads.all Thread.answered = true ∧ ¬Summarised s.store.db := by
  obtain ⟨s, hs, hobs⟩ := System.exists_reaches_of_interleave RatingRequest Guard.none
    (System.init unrated) [rate 1 1 ⟨5, none⟩, rate 2 1 ⟨2, none⟩]
    [0, 0, 0, 0, 1, 1, 1, 1, 0, 0, 1, 1]
    (fun s => (s.threads.all Thread.answered, s.store.db.quests.rows, s.store.db.scoresOf 1))
    (true, [⟨1, some 2, 1⟩], [5, 2])
    (by simpa using ⟨.rate 1 1 ⟨5, none⟩, .rate 2 1 ⟨2, none⟩⟩) (by decide +kernel)
  simp only [Prod.mk.injEq] at hobs
  obtain ⟨hdone, hquests, hscores⟩ := hobs
  refine ⟨s, hs, hdone, fun h => ?_⟩
  have hcount := h.count ⟨1, some 2, 1⟩ (by simp [hquests])
  rw [hscores] at hcount
  cases hcount

end Ratings

end SideQuest
