import ClauseTriage.Proofs.Run.Rows
import ClauseTriage.Proofs.Selection.Rounds

/-!
# Training and the search

The final model of a cluster is fitted and scored just as a trial of the search is: on the same
rows, with the same seed, on features in the same order. So its score is that of the trial that won
last.
-/
namespace ClauseTriage

/-- What a model is fitted on. -/
theorem Holdout.fit?_eq_ok {h : Holdout} {features : List String} {c : Classifier}
    (hfit : h.fit? features = .ok c) :
    ∃ points labels, h.data.rows? features h.split.train = .ok points ∧
      h.fitter ⟨.final, h.family, points, labels, h.seed⟩ = .ok c := by
  simp only [fit?, bind_eq_ok_iff, rows?, Run.orFail_eq_ok] at hfit
  obtain ⟨points, hpoints, labels, -, hclassifier⟩ := hfit
  exact ⟨points, labels, hpoints, hclassifier⟩

/-- How a report comes about: a model is fitted on the reported features and predicts both sides of
the split. -/
structure Trainer.Reports (t : Trainer) (cluster : ℕ) (rows : List ℕ) (report : ClusterReport)
    (c : Classifier) (test train : Predictions) : Prop where
  number : report.cluster = cluster
  size : report.rows = rows.length
  features : t.features? (t.holdout cluster rows) =
    .ok (report.features, report.ranking, report.selection)
  fit : (t.holdout cluster rows).fit? report.features = .ok c
  testRows : (t.holdout cluster rows).predictions? c report.features
    (t.holdout cluster rows).split.test = .ok test
  trainRows : (t.holdout cluster rows).predictions? c report.features
    (t.holdout cluster rows).split.train = .ok train
  testScores : Holdout.scores? test = .ok report.test
  trainScores : Holdout.scores? train = .ok report.train
  testConfusion : t.confusion? test = .ok report.testConfusion
  trainConfusion : t.confusion? train = .ok report.trainConfusion
  model : report.model = c.form?

namespace Trainer

variable {t : Trainer} {cluster : ℕ} {rows : List ℕ} {report : ClusterReport}

theorem train?_eq_ok (h : t.train? cluster rows = .ok report) :
    ∃ c test train, t.Reports cluster rows report c test train := by
  unfold train? at h
  simp only [bind_eq_ok_iff, Run.orFail_eq_ok] at h
  obtain ⟨⟨features, ranking, selection⟩, hfeatures, c, hc, test, htest, train, htrain, scores,
    hscores, trainScores, htrainScores, confusion, hconfusion, trainConfusion, htrainConfusion,
    h⟩ := h
  obtain rfl := Except.ok.inj h
  exact ⟨c, test, train, rfl, rfl, hfeatures, hc, htest, htrain, hscores, htrainScores, hconfusion,
    htrainConfusion, rfl⟩

/-- The score of the held-out rows is the one that the search gives the same features. -/
theorem Reports.score {c : Classifier} {test train : Predictions}
    (h : t.Reports cluster rows report c test train) :
    (t.holdout cluster rows).score? report.features = .ok report.test.total := by
  simp only [Holdout.score?, bind_eq_ok_iff]
  exact ⟨c, h.fit, test, h.testRows, report.test, h.testScores, rfl⟩

/-- Without given features the search chooses them from the ranking. -/
theorem features?_search {h : Holdout} {features : List String} {ranking : Option Ranking}
    {selection : Option (Selection Float)} (hfixed : t.settings.fixedFeatures = none)
    (hfeatures : t.features? h = .ok (features, ranking, selection)) :
    ∃ r s, ranking = some r ∧ selection = some s ∧ features = s.chosen ∧ t.ranking? h = .ok r ∧
      Search.run h.score? t.settings.target r.pool = .ok s := by
  unfold features? at hfeatures
  rw [hfixed] at hfeatures
  simp only [bind_eq_ok_iff, Run.orFail_eq_ok] at hfeatures
  obtain ⟨r, hr, s, hs, hresult⟩ := hfeatures
  obtain ⟨rfl, rfl, rfl⟩ : s.chosen = features ∧ some r = ranking ∧ some s = selection := by
    simpa [pure, Except.pure] using hresult
  exact ⟨r, s, rfl, rfl, rfl, hr, hs⟩

end Trainer

/-- Features that stand in the order of their importance keep it. -/
theorem Ranking.ofImportances_eq (names : List String) (importances : List Importance) (top : ℕ) :
    ofImportances names importances top =
      (if (names.zip importances).Pairwise (notAfter · ·) then names.zip importances
        else (names.zip importances).mergeSort notAfter).take top := by
  rw [ofImportances]
  split
  · rename_i hsorted
    rw [List.mergeSort_of_pairwise hsorted]
  · rfl

namespace Run

/-- Every report comes from training a cluster on its members, of which there is one at least. -/
theorem exists_train?_of_mem {t : Trainer} {labels : List ℕ} {reports : List ClusterReport}
    (h : trainAll? t labels = .ok reports) :
    ∀ report ∈ reports, ∃ cluster < t.settings.clusters, membersOf labels cluster ≠ [] ∧
      t.train? cluster (membersOf labels cluster) = .ok report := by
  intro report hreport
  obtain ⟨cluster, hcluster, htrain⟩ :=
    exists_left_of_forall₂ (mapM_eq_ok_iff.1 h) report hreport
  dsimp only at htrain
  split at htrain
  · cases htrain
  · rename_i hsome
    exact ⟨cluster, List.mem_range.1 hcluster, by simpa using hsome, htrain⟩

/-- A run without given features reports a search for every cluster. Where it accepted a feature,
there is a last round with a winner. The features of the final model are those that this winner was
tried with, in the same order: the first of the ranking, the winners of the rounds before, and the
winner itself. Its scores on the held-out rows add up to the best score of that round. -/
theorem final_score_eq_best (s : Settings) (fitter : Fitter) (clusterFitter : ClusterFitter)
    (d : Dataset) (report : Report) (hfixed : s.fixedFeatures = none)
    (h : report? s fitter clusterFitter d = .ok report) :
    ∀ c ∈ report.clusters, ∃ ranking selection,
      c.ranking = some ranking ∧ c.selection = some selection ∧
      ((∃ r ∈ selection.rounds, r.winner ≠ none) →
        ∃ earlier r later w, selection.rounds = earlier ++ r :: later ∧ r.winner = some w ∧
          (∀ x ∈ later, x.winner = none) ∧ (w, r.best) ∈ r.candidates ∧
          c.features = ranking.pool.take 1 ++ earlier.filterMap Round.winner ++ [w] ∧
          c.test.total = r.best) := by
  intro c hc
  obtain ⟨ready, -, hclusters⟩ := report?_eq_ok h
  obtain ⟨cluster, -, -, htrain⟩ := exists_train?_of_mem hclusters c hc
  obtain ⟨model, test, train, hreports⟩ := Trainer.train?_eq_ok htrain
  obtain ⟨ranking, selection, hranking, hselection, hfeatures, -, hrun⟩ :=
    Trainer.features?_search hfixed hreports.features
  refine ⟨ranking, selection, hranking, hselection, fun hsome => ?_⟩
  obtain ⟨first, hfirst, hcontinues⟩ := Search.run_eq_ok hrun
  obtain ⟨earlier, r, later, w, hrounds, hw, hlater, hmem, hchosen, hscore⟩ :=
    hcontinues.last_winner hsome
  refine ⟨earlier, r, later, w, hrounds, hw, hlater, hmem, ?_, ?_⟩
  · rw [hfeatures, hchosen, List.take_one, hfirst]
    rfl
  · -- the trial that won and the final model are one and the same fit
    have hfinal := hreports.score
    rw [hfeatures, hscore] at hfinal
    exact (Except.ok.inj hfinal).symm

/-- Six rows of one shape. The size tells the label, and the activity tells the other one. -/
def sixRows : Dataset :=
  ⟨["cl.glue", "cl.size", "cl.activity", "szfeat_cur.size"],
    [#[1.0, 1.0, 2.0, 2.0, 3.0, 3.0], #[1.0, 5.0, 2.0, 6.0, 3.0, 7.0],
      #[9.0, 2.0, 9.0, 1.0, 8.0, 1.0], #[0.0, 0.0, 0.0, 0.0, 0.0, 0.0]], #[0, 1, 0, 1, 0, 1]⟩

/-- A search for three features in one cluster. -/
def threeFeatures : Settings :=
  { clusters := 1, target := 3, sampleFraction := 1.0, testFraction := 0.5, seed := 3 }

/-- Keeps the rows whose last value is above four. -/
def keepLarge : Fitter := fun _ => .ok
  { predict? := fun rows => some (rows.map fun row => if 4.0 < row.getLastD 0.0 then 1 else 0)
    importances? := fun _ => none
    form? := none }

/-- The size is accepted in the first round; the second stalls, since with the activity at the end
every prediction is wrong. -/
theorem final_score_eq_best_stall :
    ∃ report c selection, report? threeFeatures keepLarge (Lloyd.fit 3) sixRows = .ok report ∧
      c ∈ report.clusters ∧ c.selection = some selection ∧
      selection.rounds.map Round.winner = [some "cl.size", none] ∧
      ∃ r ∈ selection.rounds, r.winner = some "cl.size" ∧ c.features = ["cl.glue", "cl.size"] ∧
        c.test.total = r.best := by
  have hrun : (report? threeFeatures keepLarge (Lloyd.fit 3) sixRows).toOption.map
      (fun report => report.clusters.map fun c =>
        (c.features, c.selection.map fun s => s.rounds.map Round.winner)) =
        some [(["cl.glue", "cl.size"], some [some "cl.size", none])] := by
    simp only [report?, trainAll?, Trainer.train?, Trainer.features?, Trainer.ranking?,
      Ranking.ofImportances_eq]
    decide +kernel
  obtain ⟨report, hok, hreport⟩ := exists_of_toOption_map hrun
  obtain ⟨c, hc, hcluster⟩ := List.map_eq_singleton_iff.1 hreport
  obtain ⟨hfeatures, hselection⟩ := Prod.mk.inj hcluster
  obtain ⟨selection, hselected, hwinners⟩ := Option.map_eq_some_iff.1 hselection
  have hmem : c ∈ report.clusters := hc ▸ List.mem_singleton_self c
  obtain ⟨ranking, selection', -, hselected', hfinal⟩ :=
    final_score_eq_best threeFeatures keepLarge (Lloyd.fit 3) sixRows report rfl hok c hmem
  obtain rfl : selection = selection' := Option.some.inj (hselected.symm.trans hselected')
  obtain ⟨first, hfirst, hwinner⟩ : ∃ r ∈ selection.rounds, r.winner = some "cl.size" :=
    List.mem_map.1 (hwinners ▸ List.mem_cons_self)
  obtain ⟨earlier, r, later, w, hrounds, hw, -, -, -, hbest⟩ :=
    hfinal ⟨first, hfirst, by simp [hwinner]⟩
  have hr : r ∈ selection.rounds := by simp [hrounds]
  obtain rfl : w = "cl.size" := by
    have := List.mem_map_of_mem (f := Round.winner) hr
    simpa [hwinners, hw] using this
  exact ⟨report, c, selection, hok, hmem, hselected, hwinners, r, hr, hw, hfeatures, hbest⟩

end Run

end ClauseTriage
