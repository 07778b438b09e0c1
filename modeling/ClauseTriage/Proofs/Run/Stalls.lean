import ClauseTriage.Proofs.Run.Training
import ClauseTriage.Proofs.Score.Extremes
import ClauseTriage.Proofs.Score.Positive
import ClauseTriage.Proofs.Selection.Winners

/-!
# Rounds that stall

The search goes by the sum of the scores, which is zero at its least and three at its greatest. As
the sum is above zero exactly when one held-out row is predicted right, a round stalls only when
each feature that is left makes a model that is wrong everywhere.
-/
namespace ClauseTriage

open Scalar

section Compared

variable {truth predicted : List Label}

/-- The scores of two lists are those of the pairs that are compared. -/
theorem Scores.ofLists?_eq_some_iff {α : Type} [Scalar α] {s : Scores α} :
    ofLists? truth predicted = some s ↔
      (∀ q ∈ truth.zip predicted, q.1 ≤ 1 ∧ q.2 ≤ 1) ∧
        s = (Confusion.tally (truth.zip predicted)).scores := by
  rw [ofLists?, Option.map_eq_some_iff]
  simp only [Confusion.ofLists?_eq_some_iff]
  constructor
  · rintro ⟨m, ⟨hclasses, rfl⟩, rfl⟩
    exact ⟨hclasses, rfl⟩
  · rintro ⟨hclasses, rfl⟩
    exact ⟨_, ⟨hclasses, rfl⟩, rfl⟩

theorem classes_of_mem_zip (htruth : ∀ l ∈ truth, l ≤ 1) (hpredicted : ∀ l ∈ predicted, l ≤ 1) :
    ∀ q ∈ truth.zip predicted, q.1 ≤ 1 ∧ q.2 ≤ 1 := by
  rintro ⟨t, p⟩ hq
  exact ⟨htruth t (List.of_mem_zip hq).1, hpredicted p (List.of_mem_zip hq).2⟩

end Compared

namespace Holdout

/-- The model of some features predicts no held-out row right. -/
def AllWrong (h : Holdout) (features : List String) : Prop :=
  ∃ c p, h.fit? features = .ok c ∧ h.predictions? c features h.split.test = .ok p ∧
    ∀ q ∈ p.truth.zip p.predicted, q.1 ≠ q.2

variable {h : Holdout} {features : List String} {x : Float}

theorem length_truth {c : Classifier} {rows : List ℕ} {p : Predictions}
    (hp : h.predictions? c features rows = .ok p) : p.truth.length = rows.length := by
  simp only [predictions?, bind_eq_ok_iff, labels?, Run.orFail_eq_ok] at hp
  obtain ⟨truth, htruth, points, -, hp⟩ := hp
  split at hp
  · obtain rfl := Except.ok.inj hp
    exact (mapM_eq_ok_iff.1 htruth).length_eq.symm
  · cases hp

/-- A score is above zero exactly when a held-out row is predicted right. -/
theorem not_zero_lt_score_iff (hsize : h.split.test.length < 2 ^ 64)
    (hx : h.score? features = .ok x) : lt zero x = false ↔ h.AllWrong features := by
  simp only [score?, bind_eq_ok_iff] at hx
  obtain ⟨c, hc, p, hp, s, hs, hx⟩ := hx
  obtain rfl := Except.ok.inj hx
  have hscores : Scores.ofLists? p.truth p.predicted = some s := by
    rw [scores?] at hs
    split at hs
    · rename_i hsome
      rw [hsome, Except.ok.inj hs]
    · cases hs
  obtain ⟨hclasses, rfl⟩ := Scores.ofLists?_eq_some_iff.1 hscores
  have htotal : (Confusion.tally (p.truth.zip p.predicted)).total < 2 ^ 64 := by
    rw [Confusion.total_tally, List.length_zip, length_truth hp]
    exact (min_le_left _ _).trans_lt hsize
  have hwrong : h.AllWrong features ↔ ∀ q ∈ p.truth.zip p.predicted, q.1 ≠ q.2 := by
    constructor
    · rintro ⟨c', p', hc', hp', hall⟩
      obtain rfl := Except.ok.inj (hc'.symm.trans hc)
      obtain rfl := Except.ok.inj (hp'.symm.trans hp)
      exact hall
    · exact fun hall => ⟨c, p, hc, hp, hall⟩
  rw [hwrong, ← Bool.not_eq_true, Confusion.zero_lt_total_iff htotal,
    Confusion.correct_tally hclasses, List.countP_pos_iff]
  simp only [decide_eq_true_eq, not_exists, not_and, ne_eq]

end Holdout

/-- A search stalls in a round exactly when the round has no winner. -/
theorem Search.Continues.outcome_eq_stalled_iff {α ε : Type} [Scalar α]
    {score : List String → Except ε α} {target : ℕ} {pool chosen : List String} {s : Selection α}
    (h : Continues score target pool chosen s) {i : ℕ} {r : Round α} (hr : s.rounds[i]? = some r) :
    s.outcome = .stalled r.number ↔ r.winner = none := by
  obtain ⟨-, hnumber, -, hlast⟩ := h.getElem?_rounds hr
  constructor
  · intro houtcome
    have hdescribes := h.describes
    rw [houtcome] at hdescribes
    obtain ⟨r', hr', hsame, hnone⟩ := hdescribes
    rw [List.getLast?_eq_getElem?] at hr'
    obtain ⟨-, hnumber', -⟩ := h.getElem?_rounds hr'
    obtain rfl : i = s.rounds.length - 1 := by omega
    rwa [Option.some.inj (hr.symm.trans hr')]
  · intro hnone
    refine h.describes_unique h.describes ⟨r, ?_, rfl, hnone⟩
    rw [List.getLast?_eq_getElem?, ← hlast hnone, Nat.add_sub_cancel]
    exact hr

namespace Trainer

variable {t : Trainer} {features : List String} {ranking : Ranking} {selection : Selection Float}

theorem length_test_le (t : Trainer) (cluster : ℕ) (rows : List ℕ) :
    (t.holdout cluster rows).split.test.length ≤ rows.length := by
  rw [← (Split.ofRows_perm rows t.settings.testFraction (t.seed cluster)).length_eq,
    List.length_append]
  exact Nat.le_add_left _ _

/-- A selection that is reported comes from a search of the reported ranking. -/
theorem run_of_features? {h : Holdout}
    (hfeatures : t.features? h = .ok (features, some ranking, some selection)) :
    Search.run h.score? t.settings.target ranking.pool = .ok selection := by
  cases hfixed : t.settings.fixedFeatures with
  | some given =>
    rw [features?, hfixed] at hfeatures
    cases hfeatures
  | none =>
    obtain ⟨r, s, hr, hs, -, -, hrun⟩ := features?_search hfixed hfeatures
    rwa [Option.some.inj hr, Option.some.inj hs]

/-- Over exact fractions, the scores of two lists of classes, as far as both go, are between zero
and one. They add up to three when there is something to compare and every prediction is right, and
to zero when no prediction is right; exchanging the lists exchanges precision and recall. So a round
of a cluster's search, which computes with rounding, stalls exactly when each feature that is left,
behind those that are chosen, makes a model that predicts no held-out row right: with no more rows
than a machine word can count, one right prediction keeps the sum above zero. -/
theorem score_range_and_stalls :
    (∀ truth predicted : List Label, (∀ l ∈ truth, l ≤ 1) → (∀ l ∈ predicted, l ≤ 1) →
      ∃ s s' : Scores ℚ, Scores.ofLists? truth predicted = some s ∧
        Scores.ofLists? predicted truth = some s' ∧
        (s.macroPrecision ∈ Set.Icc 0 1 ∧ s.macroRecall ∈ Set.Icc 0 1 ∧
          s.accuracy ∈ Set.Icc 0 1) ∧
        (s.total = 3 ↔
          truth.zip predicted ≠ [] ∧ ∀ q ∈ truth.zip predicted, q.1 = q.2) ∧
        (s.total = 0 ↔ ∀ q ∈ truth.zip predicted, q.1 ≠ q.2) ∧
        s'.macroPrecision = s.macroRecall ∧ s'.macroRecall = s.macroPrecision ∧
        s'.accuracy = s.accuracy) ∧
    ∀ (t : Trainer) (cluster : ℕ) (rows : List ℕ) (features : List String) (ranking : Ranking)
      (selection : Selection Float),
      t.features? (t.holdout cluster rows) = .ok (features, some ranking, some selection) →
      rows.length < 2 ^ 64 →
      ∀ i r, selection.rounds[i]? = some r →
        (selection.outcome = .stalled r.number ↔ r.winner = none) ∧
        (r.winner = none ↔
          ∀ f ∈ Search.remaining ranking.pool (selection.chosen.take (i + 1)),
            (t.holdout cluster rows).AllWrong (selection.chosen.take (i + 1) ++ [f])) := by
  constructor
  · intro truth predicted htruth hpredicted
    have hclasses := classes_of_mem_zip htruth hpredicted
    have hswapped : predicted.zip truth = (truth.zip predicted).map Prod.swap :=
      (List.zip_swap truth predicted).symm
    refine ⟨_, _, Scores.ofLists?_eq_some_iff.2 ⟨hclasses, rfl⟩,
      Scores.ofLists?_eq_some_iff.2 ⟨classes_of_mem_zip hpredicted htruth, rfl⟩,
      Confusion.scores_mem _, ?_, ?_, ?_⟩
    · rw [Confusion.total_eq_three_iff, Confusion.total_tally, Confusion.correct_tally hclasses,
        List.length_pos_iff, List.countP_eq_length]
      simp only [decide_eq_true_eq]
    · rw [Confusion.total_eq_zero_iff, Confusion.correct_tally hclasses, List.countP_eq_zero]
      simp only [decide_eq_true_eq, ne_eq]
    · rw [hswapped, Confusion.tally_swap, Confusion.scores_transpose]
      exact ⟨rfl, rfl, rfl⟩
  · intro t cluster rows features ranking selection hfeatures hsize i r hr
    obtain ⟨first, -, hsearch⟩ := Search.run_eq_ok (run_of_features? hfeatures)
    obtain ⟨hround, -⟩ := hsearch.getElem?_rounds hr
    rw [List.length_singleton, Nat.add_comm] at hround
    refine ⟨hsearch.outcome_eq_stalled_iff hr, ?_⟩
    have htest := (t.length_test_le cluster rows).trans_lt hsize
    rw [hround.winner_eq_none_iff, ← hround.names, List.forall_mem_map]
    exact forall₂_congr fun c hc => Holdout.not_zero_lt_score_iff htest (hround.scores c hc)

/-- Of two predictions that are compared, one is right. In the run, the second round has only the
activity left, and with it at the end every prediction is wrong. -/
theorem score_range_and_stalls_last :
    let t : Trainer :=
      ⟨Run.threeFeatures, Run.keepLarge, Run.sixRows, ["cl.glue", "cl.size", "cl.activity"]⟩
    let h := t.holdout 0 [0, 1, 2, 3, 4, 5]
    (∃ s : Scores ℚ, Scores.ofLists? [0, 1, 1] [0, 0] = some s ∧ s.total ≠ 3 ∧ s.total ≠ 0) ∧
    ∃ features ranking selection,
      t.features? h = .ok (features, some ranking, some selection) ∧
      selection.outcome = .stalled 2 ∧ h.AllWrong ["cl.glue", "cl.size", "cl.activity"] := by
  intro t h
  obtain ⟨hscores, hstalls⟩ := score_range_and_stalls
  constructor
  · obtain ⟨s, -, hs, -, -, hthree, hzero, -⟩ := hscores [0, 1, 1] [0, 0] (by decide) (by decide)
    exact ⟨s, hs, mt hthree.1 (by decide), mt hzero.1 (by decide)⟩
  · have hrun : (t.features? h).toOption.map
        (fun r => (r.2.1.map Ranking.pool, r.2.2.map fun s => (s.chosen, s.rounds.length))) =
          some (some ["cl.glue", "cl.size", "cl.activity"], some (["cl.glue", "cl.size"], 2)) := by
      simp only [t, h, features?, ranking?, Ranking.ofImportances_eq]
      decide +kernel
    obtain ⟨⟨features, r?, s?⟩, hfeatures, hreport⟩ := exists_of_toOption_map hrun
    obtain ⟨hranked, hselected⟩ := Prod.mk.inj hreport
    obtain ⟨ranking, rfl, hpool⟩ := Option.map_eq_some_iff.1 hranked
    obtain ⟨selection, rfl, hsearched⟩ := Option.map_eq_some_iff.1 hselected
    obtain ⟨hchosen, hlength⟩ := Prod.mk.inj hsearched
    obtain ⟨r, hr⟩ : ∃ r, selection.rounds[1]? = some r := ⟨_, List.getElem?_eq_getElem (by omega)⟩
    obtain ⟨first, -, hsearch⟩ := Search.run_eq_ok (run_of_features? hfeatures)
    obtain ⟨-, hnumber, hnone, -⟩ := hsearch.getElem?_rounds hr
    rw [hchosen] at hnone
    obtain ⟨houtcome, hwrong⟩ :=
      hstalls t 0 _ features ranking selection hfeatures (by decide) 1 r hr
    refine ⟨features, ranking, selection, hfeatures, (houtcome.2 hnone).trans ?_, ?_⟩
    · rw [hnumber]
      rfl
    · have hlast := hwrong.1 hnone "cl.activity"
      rw [hchosen, hpool] at hlast
      exact hlast (by decide)

end Trainer

end ClauseTriage
