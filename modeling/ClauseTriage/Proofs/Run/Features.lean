import ClauseTriage.Proofs.Run.Headers
import ClauseTriage.Proofs.Run.Training

/-!
# Which features reach a model

The features of a cluster are given or searched. A search takes them from a ranking, and a ranking
from the candidates, so no column that the filter excludes gets further than the filter. Given
features pass by the candidates; only those that are dropped are taken out of the list.
-/
namespace ClauseTriage

/-! ## Markers in names -/

namespace FeatureFilter

variable {f : FeatureFilter} {name : String}

theorem drops_iff : f.drops name = true ↔
    f.dropRdb1 = true ∧ ∃ marker ∈ rdb1Markers, marker.toList <:+: name.toList := by
  simp [drops, marked_iff]

/-- No marker of an excluded column stands in the name of a candidate. -/
theorem isCandidate_iff : f.isCandidate name = true ↔
    (∀ marker ∈ bookkeepingMarkers ++ supersededMarkers ++ [Accessor.shapeMarker],
      ¬marker.toList <:+: name.toList) ∧ f.drops name = false := by
  have hmarked (markers : List String) : marked markers name = false ↔
      ∀ marker ∈ markers, ¬marker.toList <:+: name.toList := by
    rw [← Bool.not_eq_true, marked_iff]
    push Not
    rfl
  simp only [isCandidate, Bool.not_eq_true', Bool.or_eq_false_iff, hmarked, List.forall_mem_append]

/-- Columns for routing are never candidates: the marker they share excludes them. -/
theorem isCandidate_eq_false_of_mem_shapes {names : List String} (h : name ∈ shapes names) :
    f.isCandidate name = false := by
  have hmarked : marked [Accessor.shapeMarker] name = true := by
    simp only [shapes, List.mem_filter, Bool.and_eq_true] at h
    exact h.2.1
  simp [isCandidate, hmarked]

end FeatureFilter

/-! ## From the candidates to the final features -/

theorem Ranking.pool_subset (names : List String) (importances : List Importance) (top : ℕ) :
    (ofImportances names importances top).pool ⊆ names := by
  intro name hname
  obtain ⟨entry, hentry, rfl⟩ := List.mem_map.1 hname
  have hzip := List.mem_mergeSort.1 (List.mem_of_mem_take hentry)
  exact (List.of_mem_zip hzip).1

/-- A model is fitted only on columns. -/
theorem Holdout.subset_names_of_fit? {h : Holdout} {features : List String} {c : Classifier}
    (hfit : h.fit? features = .ok c) : features ⊆ h.data.names := by
  obtain ⟨points, labels, hpoints, -⟩ := fit?_eq_ok hfit
  exact Dataset.subset_names_of_rows? hpoints

namespace Search.Continues

variable {α ε : Type} [Scalar α] {score : List String → Except ε α} {target : ℕ}
  {pool chosen : List String} {s : Selection α}

/-- Rounds try names of the pool. -/
theorem candidates_subset (h : Continues score target pool chosen s) :
    ∀ r ∈ s.rounds, r.candidates.map Prod.fst ⊆ pool := by
  intro r hr name hname
  obtain ⟨i, hi⟩ := List.mem_iff_getElem?.1 hr
  obtain ⟨hround, -⟩ := h.getElem?_rounds hi
  rw [hround.names] at hname
  exact (mem_remaining.1 hname).1

end Search.Continues

namespace Trainer

variable {t : Trainer} {h : Holdout} {features : List String} {ranking : Option Ranking}
  {selection : Option (Selection Float)}

theorem pool_subset_of_ranking? {r : Ranking} (hr : t.ranking? h = .ok r) :
    r.pool ⊆ t.candidates := by
  simp only [ranking?, bind_eq_ok_iff] at hr
  obtain ⟨_, -, _, -, _, -, hr⟩ := hr
  obtain rfl := Except.ok.inj hr
  exact Ranking.pool_subset _ _ _

/-- Of given features those are left that are not dropped. -/
theorem features?_fixed {list : List String} (hfixed : t.settings.fixedFeatures = some list)
    (hfeatures : t.features? h = .ok (features, ranking, selection)) :
    features = t.filter.fixed list := by
  rw [features?, hfixed] at hfeatures
  exact (congrArg Prod.fst (Except.ok.inj hfeatures)).symm

/-- A search has a ranking of candidates; its rounds try names of the ranking, and what it chooses
are such names, one at least. -/
theorem features?_subset_candidates (hfixed : t.settings.fixedFeatures = none)
    (hfeatures : t.features? h = .ok (features, ranking, selection)) :
    ∃ r s, ranking = some r ∧ selection = some s ∧ features ≠ [] ∧
      r.pool ⊆ t.candidates ∧ features ⊆ r.pool ∧
      ∀ round ∈ s.rounds, round.candidates.map Prod.fst ⊆ r.pool := by
  obtain ⟨r, s, hranking, hselection, rfl, hr, hrun⟩ := features?_search hfixed hfeatures
  obtain ⟨first, hfirst, hcontinues⟩ := Search.run_eq_ok hrun
  refine ⟨r, s, hranking, hselection, ?_, pool_subset_of_ranking? hr, hcontinues.subset ?_,
    hcontinues.candidates_subset⟩
  · rw [hcontinues.chosen_eq]
    simp
  · simpa using List.mem_of_mem_head? hfirst

/-- No feature of a cluster is dropped by the filter that made the candidates. -/
theorem drops_eq_false_of_features? (ht : t.candidates = t.filter.candidates t.data.names)
    (hfeatures : t.features? h = .ok (features, ranking, selection)) :
    ∀ name ∈ features, t.filter.drops name = false := by
  intro name hname
  cases hfixed : t.settings.fixedFeatures with
  | none =>
    obtain ⟨r, s, -, -, -, hpool, hsubset, -⟩ := features?_subset_candidates hfixed hfeatures
    have hmem := hpool (hsubset hname)
    rw [ht, FeatureFilter.mem_candidates, FeatureFilter.isCandidate_iff] at hmem
    exact hmem.2.2
  | some list =>
    rw [features?_fixed hfixed hfeatures, FeatureFilter.mem_fixed] at hname
    exact hname.2

/-- A cluster has no features just when all that are given are dropped: a search chooses one at
least. -/
theorem features?_eq_nil_iff (hfeatures : t.features? h = .ok (features, ranking, selection)) :
    features = [] ↔ ∃ list, t.settings.fixedFeatures = some list ∧
      ∀ name ∈ list, t.filter.drops name = true := by
  cases hfixed : t.settings.fixedFeatures with
  | none =>
    obtain ⟨r, s, -, -, hsome, -⟩ := features?_subset_candidates hfixed hfeatures
    simp [hsome]
  | some list => simp [features?_fixed hfixed hfeatures, FeatureFilter.fixed]

end Trainer

namespace Run

variable {s : Settings} {fitter : Fitter} {clusterFitter : ClusterFitter} {d : Dataset}
  {report : Report}

theorem Ready.names_eq {r : Ready} (h : ready? s clusterFitter d = .ok r) :
    r.data.names = d.names := by
  obtain ⟨-, -, hdata, -⟩ := ready?_eq_ok h
  exact (Dataset.subset?_hasRows hdata).names

/-- Every report of a run comes from its cluster's members. -/
theorem exists_reports_of_report? (h : report? s fitter clusterFitter d = .ok report) :
    ∃ r, ready? s clusterFitter d = .ok r ∧ ∀ c ∈ report.clusters, ∃ model test train,
      (r.trainer s fitter).Reports c.cluster (r.members c.cluster) c model test train := by
  obtain ⟨r, hr, hclusters⟩ := report?_eq_ok h
  refine ⟨r, hr, fun c hc => ?_⟩
  obtain ⟨cluster, -, -, htrain⟩ := exists_train?_of_mem hclusters c hc
  obtain ⟨model, test, train, hreports⟩ := Trainer.train?_eq_ok htrain
  obtain rfl := hreports.number
  exact ⟨model, test, train, hreports⟩

/-- A run that succeeds fits the final model of every cluster on the features it reports, and they
are columns of the dataset. They may still be none: when the second generation is dropped and every
given feature is of it, nothing is left of a list that was not empty. In every other run each
cluster has a feature. -/
theorem final_features (s : Settings) (fitter : Fitter) (clusterFitter : ClusterFitter)
    (d : Dataset) (report : Report) (h : report? s fitter clusterFitter d = .ok report) :
    ∃ r, ready? s clusterFitter d = .ok r ∧ ∀ c ∈ report.clusters,
      (∃ model, ((r.trainer s fitter).holdout c.cluster (r.members c.cluster)).fit? c.features =
        .ok model ∧ c.model = model.form?) ∧
      c.features ⊆ d.names ∧
      (c.features = [] ↔ s.dropRdb1 = true ∧ ∃ list, s.fixedFeatures = some list ∧ list ≠ [] ∧
        ∀ name ∈ list, ∃ marker ∈ ["rdb1", "rdb.rel"], marker.toList <:+: name.toList) := by
  obtain ⟨r, hr, hclusters⟩ := exists_reports_of_report? h
  refine ⟨r, hr, fun c hc => ?_⟩
  obtain ⟨model, test, train, hreports⟩ := hclusters c hc
  have hnames := Holdout.subset_names_of_fit? hreports.fit
  refine ⟨⟨model, hreports.fit, hreports.model⟩, Ready.names_eq hr ▸ hnames, ?_⟩
  have hgiven : s.fixedFeatures ≠ some [] := by
    obtain ⟨hcheck, -⟩ := ready?_eq_ok hr
    obtain ⟨-, -, -, -, -, hgiven, -⟩ := Settings.check_eq_ok_iff.1 hcheck
    exact hgiven
  rw [Trainer.features?_eq_nil_iff hreports.features]
  simp only [FeatureFilter.drops_iff]
  constructor
  · rintro ⟨list, hlist, hdrops⟩
    -- the list has a first feature, and this one is dropped only if features are dropped at all
    have hsome : list ≠ [] := by
      rintro rfl
      exact hgiven hlist
    obtain ⟨first, rest, rfl⟩ := List.exists_cons_of_ne_nil hsome
    exact ⟨(hdrops first List.mem_cons_self).1, _, hlist, hsome, fun name hname =>
      (hdrops name hname).2⟩
  · rintro ⟨hdrop, list, hlist, -, hmarkers⟩
    exact ⟨list, hlist, fun name hname => ⟨hdrop, hmarkers name hname⟩⟩

/-- A run of two clusters with two given features, of which one is dropped. -/
def oneOfTwo : Settings :=
  { fourOfFive with fixedFeatures := some ["rdb1.act_ranking", "cl.glue"], dropRdb1 := true }

theorem final_features_one_of_two :
    ∃ report, report? oneOfTwo (TreeFitter.ofSettings oneOfTwo).fitter (Lloyd.fit 3) fiveRows =
        .ok report ∧
      report.clusters.map ClusterReport.features = [["cl.glue"], ["cl.glue"]] ∧
      ∀ c ∈ report.clusters, c.features ⊆ fiveRows.names ∧ c.features ≠ [] := by
  have hrun : (report? oneOfTwo (TreeFitter.ofSettings oneOfTwo).fitter (Lloyd.fit 3)
      fiveRows).toOption.map (fun report => report.clusters.map ClusterReport.features) =
        some [["cl.glue"], ["cl.glue"]] := by decide +kernel
  obtain ⟨report, hok, hfeatures⟩ := exists_of_toOption_map hrun
  obtain ⟨r, -, hclusters⟩ :=
    final_features oneOfTwo (TreeFitter.ofSettings oneOfTwo).fitter (Lloyd.fit 3) fiveRows report hok
  refine ⟨report, hok, hfeatures, fun c hc => ?_⟩
  obtain ⟨-, hnames, hnone⟩ := hclusters c hc
  refine ⟨hnames, fun hnil => ?_⟩
  obtain ⟨-, list, hlist, -, hmarkers⟩ := hnone.1 hnil
  obtain rfl : ["rdb1.act_ranking", "cl.glue"] = list := Option.some.inj hlist
  have := hmarkers "cl.glue" (by decide)
  revert this
  decide

/-- A run of one cluster with one given feature, which is dropped. -/
def noneOfOne : Settings :=
  { clusters := 1, sampleFraction := 1.0, testFraction := 0.5, seed := 3, family := .tree,
    fixedFeatures := some ["rdb1.act_ranking"], dropRdb1 := true,
    headers := some ⟨"short", "out"⟩ }

/-- The settings are accepted, the only given feature is not even a column, and the run writes the
predictor of a model that was fitted on nothing. -/
theorem final_features_none_of_one :
    let f := (TreeFitter.ofSettings noneOfOne).fitter
    let lloyd := Lloyd.fit Lloyd.defaultRounds
    noneOfOne.check = .ok () ∧ "rdb1.act_ranking" ∉ shapeless.names ∧
    ∃ r plan c model, ready? noneOfOne lloyd shapeless = .ok r ∧
      plan? noneOfOne f lloyd shapeless = .ok plan ∧ c ∈ plan.report.clusters ∧
      c.features = [] ∧
      ((r.trainer noneOfOne f).holdout c.cluster (r.members c.cluster)).fit? c.features =
        .ok model ∧ c.model = model.form? ∧
      plan.written =
        ["out/clustering_short.h", "out/final_predictor_short0.h", "out/all_predictors_short.h"] := by
  intro f lloyd
  have hrun : (plan? noneOfOne f lloyd shapeless).toOption.map
      (fun plan => (plan.report.clusters.map ClusterReport.features, plan.written)) = some ([[]],
        ["out/clustering_short.h", "out/final_predictor_short0.h", "out/all_predictors_short.h"]) := by
    decide +kernel
  obtain ⟨plan, hplan, hresult⟩ := exists_of_toOption_map hrun
  obtain ⟨hfeatures, hwritten⟩ := Prod.mk.inj hresult
  obtain ⟨r, hr, hclusters⟩ := exists_reports_of_report? (plan?_eq_ok hplan).1
  obtain ⟨c, hc, hnil⟩ := List.map_eq_singleton_iff.1 hfeatures
  have hmem : c ∈ plan.report.clusters := hc ▸ List.mem_singleton_self c
  obtain ⟨model, test, train, hreports⟩ := hclusters c hmem
  exact ⟨(ready?_eq_ok hr).1, by decide, r, plan, c, model, hr, hplan, hmem, hnil, hreports.fit,
    hreports.model, hwritten⟩

/-- No excluded column reaches a model of a run that succeeds. Without given features the names that
are ranked, tried in a round or chosen are columns of the dataset, candidates, and free of every
marker. No candidate is used for routing, in whatever dataset. When the second generation is
dropped, no feature is of it, searched or given. -/
theorem features_not_excluded (s : Settings) (fitter : Fitter) (clusterFitter : ClusterFitter)
    (d : Dataset) (report : Report) (h : report? s fitter clusterFitter d = .ok report) :
    (s.fixedFeatures = none → ∀ c ∈ report.clusters, ∃ ranking selection,
      c.ranking = some ranking ∧ c.selection = some selection ∧
      ∀ name, (name ∈ ranking.pool ∨
          (∃ round ∈ selection.rounds, name ∈ round.candidates.map Prod.fst) ∨
          name ∈ c.features) →
        name ∈ d.names ∧ FeatureFilter.isCandidate ⟨s.dropRdb1⟩ name = true ∧
        ∀ marker ∈ ["x.num_used", "x.class", "x.lifetime", "fname", "dump_no", "cl2", "cl3", "cl4",
          "szfeat_cur"], ¬marker.toList <:+: name.toList) ∧
    report.shapes = FeatureFilter.shapes d.names ∧
    (∀ (f : FeatureFilter) (names others : List String),
      (f.candidates names).Disjoint (FeatureFilter.shapes others)) ∧
    (s.dropRdb1 = true → ∀ c ∈ report.clusters, ∀ name ∈ c.features,
      ∀ marker ∈ ["rdb1", "rdb.rel"], ¬marker.toList <:+: name.toList) := by
  obtain ⟨r, hr, hclusters⟩ := exists_reports_of_report? h
  refine ⟨?_, ?_, ?_, ?_⟩
  · intro hfixed c hc
    obtain ⟨model, test, train, hreports⟩ := hclusters c hc
    obtain ⟨ranking, selection, hranking, hselection, -, hpool, hchosen, hrounds⟩ :=
      Trainer.features?_subset_candidates hfixed hreports.features
    refine ⟨ranking, selection, hranking, hselection, fun name hname => ?_⟩
    have hranked : name ∈ ranking.pool := by
      rcases hname with hname | ⟨round, hround, hname⟩ | hname
      · exact hname
      · exact hrounds round hround hname
      · exact hchosen hname
    obtain ⟨hcolumn, hcandidate⟩ := FeatureFilter.mem_candidates.1 (hpool hranked)
    exact ⟨Ready.names_eq hr ▸ hcolumn, hcandidate, (FeatureFilter.isCandidate_iff.1 hcandidate).1⟩
  · obtain ⟨r', hr', -, -, hshapes⟩ := report?_eq_ok_routing h
    rw [hshapes, Ready.names_eq hr']
  · intro f names others name hcandidate hshape
    rw [FeatureFilter.mem_candidates,
      FeatureFilter.isCandidate_eq_false_of_mem_shapes hshape] at hcandidate
    exact Bool.false_ne_true hcandidate.2
  · intro hdrop c hc name hname marker hmarker hinfix
    obtain ⟨model, test, train, hreports⟩ := hclusters c hc
    have hkept := Trainer.drops_eq_false_of_features? rfl hreports.features name hname
    rw [FeatureFilter.drops_iff.2 ⟨hdrop, marker, hmarker, hinfix⟩] at hkept
    cases hkept

/-- Six rows with columns of every kind, among them two of one name. -/
def mixedRows : Dataset :=
  ⟨["cl.glue", "cl.glue", "x.num_used", "cl.size", "rdb1.used", "cl2.size", "szfeat_cur.size"],
    [#[9.0, 2.0, 9.0, 1.0, 8.0, 1.0], #[1.0, 1.0, 2.0, 2.0, 3.0, 3.0],
      #[0.0, 9.0, 0.0, 9.0, 0.0, 9.0], #[1.0, 5.0, 2.0, 6.0, 3.0, 7.0],
      #[0.0, 9.0, 0.0, 9.0, 0.0, 9.0], #[0.0, 9.0, 0.0, 9.0, 0.0, 9.0],
      #[0.0, 0.0, 0.0, 0.0, 0.0, 0.0]], #[0, 1, 0, 1, 0, 1]⟩

/-- The columns that tell the label are excluded; the size is found instead. -/
theorem features_not_excluded_mixed :
    let s : Settings := { threeFeatures with dropRdb1 := true }
    ∃ report c, report? s keepLarge (Lloyd.fit 3) mixedRows = .ok report ∧ c ∈ report.clusters ∧
      c.features = ["cl.glue", "cl.size"] ∧ report.shapes = ["szfeat_cur.size"] ∧
      (∃ ranking, c.ranking = some ranking ∧ ranking.pool = ["cl.glue", "cl.glue", "cl.size"] ∧
        ∀ name ∈ ranking.pool, name ∈ mixedRows.names) ∧
      ∀ name ∈ c.features, ∀ marker ∈ ["rdb1", "rdb.rel"],
        ¬marker.toList <:+: name.toList := by
  intro s
  have hrun : (report? s keepLarge (Lloyd.fit 3) mixedRows).toOption.map
      (fun report => report.clusters.map fun c => (c.features, c.ranking.map Ranking.pool)) =
        some [(["cl.glue", "cl.size"], some ["cl.glue", "cl.glue", "cl.size"])] := by
    simp only [report?, trainAll?, Trainer.train?, Trainer.features?, Trainer.ranking?,
      Ranking.ofImportances_eq]
    decide +kernel
  obtain ⟨report, hok, hreport⟩ := exists_of_toOption_map hrun
  obtain ⟨c, hc, hcluster⟩ := List.map_eq_singleton_iff.1 hreport
  obtain ⟨hfeatures, hpool⟩ := Prod.mk.inj hcluster
  have hmem : c ∈ report.clusters := hc ▸ List.mem_singleton_self c
  obtain ⟨hsearched, hshapes, -, hdropped⟩ :=
    features_not_excluded s keepLarge (Lloyd.fit 3) mixedRows report hok
  obtain ⟨ranking, selection, hranking, -, hnames⟩ := hsearched rfl c hmem
  rw [hranking] at hpool
  refine ⟨report, c, hok, hmem, hfeatures, ?_, ⟨ranking, hranking, Option.some.inj hpool, ?_⟩,
    hdropped rfl c hmem⟩
  · rw [hshapes]
    decide
  · exact fun name hname => (hnames name (.inl hname)).1

end Run

end ClauseTriage
