import ClauseTriage.Proofs.Fit.Models
import ClauseTriage.Proofs.Run.Training
import ClauseTriage.Proofs.Source.Predictor

/-!
# Headers can be written after training

What the writers of headers check holds of every run whose settings are accepted and whose clusters
are trained: there are as many centers as clusters, of as many coordinates as there are shapes, and
every tree tests features of its cluster's list.
-/
namespace ClauseTriage

namespace Settings

/-- What it takes for settings to be accepted. -/
theorem check_eq_ok_iff {s : Settings} : s.check = .ok () ↔
    s.clusters ≠ 0 ∧ s.target ≠ 0 ∧ s.poolSize ≠ 0 ∧ isFraction s.sampleFraction = true ∧
      isFraction s.testFraction = true ∧ s.fixedFeatures ≠ some [] ∧
      ∀ target, s.headers = some target →
        BaseName.isValid target.base = true ∧ s.family.isCompilable = true := by
  unfold check
  simp only [refuse_eq_ok_iff, BaseName.check]
  cases s.headers with
  | none => simp [pure, Except.pure]
  | some target =>
    cases hbase : BaseName.isValid target.base <;> cases hfamily : s.family.isCompilable <;>
      simp [hbase, pure, Except.pure, bind, Except.bind, throw, throwThe, MonadExceptOf.throw]

end Settings

namespace Code

theorem checkBase_eq_ok_iff {base : String} :
    CodeError.checkBase base = .ok () ↔ BaseName.isValid base = true := by
  unfold CodeError.checkBase BaseName.check
  cases hbase : BaseName.isValid base <;> simp

/-- Centroids become a router when the counts agree. -/
theorem exists_compileRouter?_iff {c : Centroids Float} {names : List String} {clusters : ℕ}
    {base : String} {host : Host} :
    (∃ artifact, compileRouter? c names clusters base host = .ok artifact) ↔
      BaseName.isValid base = true ∧ clusters ≠ 0 ∧ clusters = c.count ∧
        names.length = c.dimension := by
  unfold compileRouter?
  simp only [bind_eq_ok_iff, refuse_eq_ok_iff]
  constructor
  · rintro ⟨artifact, ⟨⟩, hbase, hclusters, hcount, hnames, -⟩
    exact ⟨checkBase_eq_ok_iff.1 hbase, hclusters, not_not.1 hcount, not_not.1 hnames⟩
  · rintro ⟨hbase, hclusters, hcount, hnames⟩
    exact ⟨_, (), checkBase_eq_ok_iff.2 hbase, hclusters, not_not.2 hcount, not_not.2 hnames, rfl⟩

theorem exists_compileDispatch?_iff {base : String} {router : Artifact} {predictors : List Artifact}
    {host : Host} : (∃ artifact, compileDispatch? base router predictors host = .ok artifact) ↔
      BaseName.isValid base = true ∧ predictors ≠ [] := by
  unfold compileDispatch?
  simp only [bind_eq_ok_iff, refuse_eq_ok_iff, List.isEmpty_iff]
  constructor
  · rintro ⟨artifact, ⟨⟩, hbase, hsome, -⟩
    exact ⟨checkBase_eq_ok_iff.1 hbase, hsome⟩
  · rintro ⟨hbase, hsome⟩
    exact ⟨_, (), checkBase_eq_ok_iff.2 hbase, hsome, rfl⟩

/-- A model becomes a predictor when its features have names. -/
theorem exists_compilePredictor? {m : Model} {names : List String} {base : String} (cluster : ℕ)
    (host : Host) (hbase : BaseName.isValid base = true)
    (hfeatures : ∀ t ∈ m.trees, ∀ f ∈ t.features, f < names.length) :
    ∃ artifact, compilePredictor? m names base cluster host = .ok artifact := by
  unfold compilePredictor?
  rw [checkBase_eq_ok_iff.2 hbase, Source.ofModel?_eq_ok _ hfeatures]
  exact ⟨_, rfl⟩

end Code

open Code Run

/-- Headers are made when the router, every predictor and the dispatch table can be. -/
theorem exists_headers? {s : Settings} {reports : List ClusterReport} {c : Centroids Float}
    {shapes : List String} {base : String} (hbase : BaseName.isValid base = true)
    (hclusters : s.clusters ≠ 0) (hcount : s.clusters = c.count)
    (hshapes : shapes.length = c.dimension) (hreports : reports.length = s.clusters)
    (hmodels : ∀ r ∈ reports, ∃ m, r.model = some m ∧
      ∀ t ∈ m.trees, ∀ f ∈ t.features, f < r.features.length) :
    ∃ artifacts, headers? s reports c shapes base = .ok artifacts := by
  obtain ⟨router, hrouter⟩ :
      ∃ router, compileRouter? c shapes s.clusters base s.host = .ok router :=
    exists_compileRouter?_iff.2 ⟨hbase, hclusters, hcount, hshapes⟩
  obtain ⟨predictors, hpredictors⟩ :
      ∃ predictors, (reports.mapM fun r => r.predictor? base s.host) = .ok predictors := by
    apply exists_mapM_ok
    intro r hr
    obtain ⟨m, hm, hfeatures⟩ := hmodels r hr
    obtain ⟨artifact, hartifact⟩ := exists_compilePredictor? r.cluster s.host hbase hfeatures
    refine ⟨artifact, ?_⟩
    rw [ClusterReport.predictor?, hm]
    exact orFail_eq_ok.2 hartifact
  have hsome : predictors ≠ [] := by
    rintro rfl
    exact hclusters (hreports.symm.trans (mapM_eq_ok_iff.1 hpredictors).length_eq)
  obtain ⟨dispatch, hdispatch⟩ :
      ∃ dispatch, compileDispatch? base router predictors s.host = .ok dispatch :=
    exists_compileDispatch?_iff.2 ⟨hbase, hsome⟩
  simp only [headers?, bind_eq_ok_iff, Run.orFail_eq_ok]
  exact ⟨_, router, hrouter, predictors, hpredictors, dispatch, hdispatch, rfl⟩

/-- A model of trees is reported for every cluster, and tests features of the cluster's list. -/
theorem Trainer.Reports.exists_model {t : Trainer} {f : TreeFitter} (hfitter : t.fitter = f.fitter)
    {cluster : ℕ} {rows : List ℕ} {report : ClusterReport} {c : Classifier}
    {test train : Predictions} (h : t.Reports cluster rows report c test train) :
    ∃ m, report.model = some m ∧
      ∀ tree ∈ m.trees, ∀ feature ∈ tree.features, feature < report.features.length := by
  obtain ⟨points, labels, hpoints, hclassifier⟩ := Holdout.fit?_eq_ok h.fit
  rw [show (t.holdout cluster rows).fitter = f.fitter from hfitter, TreeFitter.fitter] at hclassifier
  obtain ⟨m, hm, rfl⟩ := map_eq_ok_iff.1 hclassifier
  refine ⟨m, h.model, TreeFitter.features_lt_of_model? ?_ hm⟩
  exact Dataset.length_of_mem_rows? hpoints

namespace Run

variable {s : Settings} {d : Dataset}

/-- The centers of a run are as many as its clusters, and have one coordinate for each shape. -/
theorem Ready.centers_shaped {rounds : ℕ} {r : Ready} (h : ready? s (Lloyd.fit rounds) d = .ok r) :
    Lloyd.Shaped s.clusters (FeatureFilter.shapes r.data.names).length
      r.clustering.centroids.centers := by
  obtain ⟨-, -, -, ⟨points, hpoints, hfit⟩, -⟩ := ready?_eq_ok h
  exact Lloyd.fit_shaped (Dataset.length_of_mem_rows? hpoints) hfit

/-- When a run with headers has trained all its clusters, its headers can be made, and so its plan.
The router has as many centers as there are clusters and as many coordinates as there are shapes,
even if there is none; every cluster has a model, whose trees test features of its list. -/
theorem headers_after_training (s : Settings) (f : TreeFitter) (rounds : ℕ) (d : Dataset)
    (target : HeaderTarget) (report : Report) (htarget : s.headers = some target)
    (h : report? s f.fitter (Lloyd.fit rounds) d = .ok report) :
    (∃ artifacts, headers? s report.clusters report.centroids report.shapes target.base =
      .ok artifacts) ∧
    (∃ plan, plan? s f.fitter (Lloyd.fit rounds) d = .ok plan) ∧
    report.centroids.count = s.clusters ∧
    (∀ center ∈ report.centroids.centers, center.length = report.shapes.length) ∧
    ∀ c ∈ report.clusters, ∃ m, c.model = some m ∧
      ∀ t ∈ m.trees, ∀ feature ∈ t.features, feature < c.features.length := by
  obtain ⟨r, hr, hclusters, hcentroids, hshapes⟩ := report?_eq_ok_routing h
  obtain ⟨hcount, hcenters⟩ := Ready.centers_shaped hr
  rw [← hcentroids, ← hshapes] at hcenters
  rw [← hcentroids] at hcount
  have hmodels : ∀ c ∈ report.clusters, ∃ m, c.model = some m ∧
      ∀ t ∈ m.trees, ∀ feature ∈ t.features, feature < c.features.length := by
    intro c hc
    obtain ⟨cluster, -, -, htrain⟩ := exists_train?_of_mem hclusters c hc
    obtain ⟨model, test, train, hreports⟩ := Trainer.train?_eq_ok htrain
    exact hreports.exists_model rfl
  obtain ⟨hpositive, -, -, -, -, -, hheaders⟩ := Settings.check_eq_ok_iff.1 (ready?_eq_ok hr).1
  have hlength : report.clusters.length = s.clusters := by
    rw [← (mapM_eq_ok_iff.1 hclusters).length_eq, List.length_range]
    rfl
  have hdimension : report.shapes.length = report.centroids.dimension :=
    (hcenters _ (List.head_mem report.centroids.nonempty)).symm
  obtain ⟨artifacts, hartifacts⟩ := exists_headers? (hheaders target htarget).1 hpositive
    hcount.symm hdimension hlength hmodels
  refine ⟨⟨artifacts, hartifacts⟩, ?_, hcount, hcenters, hmodels⟩
  have hsteps : planHeaders? s report = .ok (headerSteps target artifacts) := by
    rw [planHeaders?, htarget]
    exact map_eq_ok_iff.2 ⟨artifacts, hartifacts, rfl⟩
  rw [plan?, h]
  exact ⟨_, bind_eq_ok_iff.2 ⟨report, rfl, bind_eq_ok_iff.2 ⟨_, hsteps, rfl⟩⟩⟩

/-- Three rows without a shape. -/
def shapeless : Dataset := ⟨["cl.glue"], [#[1.0, 5.0, 2.0]], #[0, 1, 0]⟩

/-- A run of one cluster that writes a forest. -/
def forestHeaders : Settings :=
  { clusters := 1, sampleFraction := 1.0, testFraction := 0.5, seed := 3, family := .forest,
    fixedFeatures := some ["cl.glue"], headers := some ⟨"short", "out"⟩ }

theorem headers_after_training_shapeless :
    let f := TreeFitter.ofSettings forestHeaders
    ∃ report, report? forestHeaders f.fitter (Lloyd.fit 3) shapeless = .ok report ∧
      report.shapes = [] ∧
      (∃ artifacts, headers? forestHeaders report.clusters report.centroids report.shapes "short" =
        .ok artifacts) ∧
      (∀ center ∈ report.centroids.centers, center.length = 0) ∧
      report.clusters.map ClusterReport.features = [["cl.glue"]] ∧
      ∀ c ∈ report.clusters, ∃ m, c.model = some m ∧
        ∀ t ∈ m.trees, ∀ feature ∈ t.features, feature < c.features.length := by
  intro f
  have hrun : (report? forestHeaders f.fitter (Lloyd.fit 3) shapeless).toOption.map
      (fun report => (report.shapes, report.clusters.map ClusterReport.features)) =
        some ([], [["cl.glue"]]) := by decide +kernel
  obtain ⟨report, hok, hreport⟩ := exists_of_toOption_map hrun
  obtain ⟨hshapes, hfeatures⟩ := Prod.mk.inj hreport
  obtain ⟨hheaders, -, -, hcenters, hmodels⟩ :=
    headers_after_training forestHeaders f 3 shapeless ⟨"short", "out"⟩ report rfl hok
  rw [hshapes] at hcenters
  exact ⟨report, hok, hshapes, hheaders, hcenters, hfeatures, hmodels⟩

end Run

end ClauseTriage
