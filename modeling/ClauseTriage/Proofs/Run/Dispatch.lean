import ClauseTriage.Proofs.Run.Written
import ClauseTriage.Proofs.Source.Dispatch

/-!
# The headers of a run line up

The host asks the router for a cluster and calls the function that stands there in the dispatch
table. Reports, predictors and table entries are lists over the same clusters, so the entry of a
cluster is the function that was compiled from its own report.
-/
namespace ClauseTriage

open Code

/-! ## One header at a time -/

namespace BaseName

theorem predictorFile_injective (base : String) : Function.Injective (predictorFile base) := by
  intro i j h
  exact Source.nat_injective ((String.append_right_inj _).1 ((String.append_left_inj _).1 h))

/-- They begin with different letters. -/
theorem routerFile_ne_predictorFile (base : String) (cluster : ℕ) :
    routerFile base ≠ predictorFile base cluster := by
  have hhead {front : String} {c : Char} (h : front.toList.head? = some c) (back : String) :
      (front ++ back).toList.head? = some c := by
    rw [String.toList_append, List.head?_append, h, Option.some_or]
  have hrouter : (routerFile base).toList.head? = some 'c' := hhead (hhead (by decide) _) _
  have hpredictor : (predictorFile base cluster).toList.head? = some 'f' :=
    hhead (hhead (hhead (by decide) _) _) _
  intro heq
  rw [heq, hpredictor] at hrouter
  exact absurd (Option.some.inj hrouter) (by decide)

end BaseName

namespace Code

variable {base : String} {host : Host} {a : Artifact}

theorem compileRouter?_file {c : Centroids Float} {names : List String} {clusters : ℕ}
    (h : compileRouter? c names clusters base host = .ok a) : a.file = BaseName.routerFile base := by
  simp only [compileRouter?, bind_eq_ok_iff, refuse_eq_ok_iff] at h
  obtain ⟨⟨⟩, -, -, -, -, h⟩ := h
  obtain rfl := Except.ok.inj h
  rfl

/-- A predictor has one entry point. -/
theorem compilePredictor?_file_entries {m : Model} {names : List String} {cluster : ℕ}
    (h : compilePredictor? m names base cluster host = .ok a) :
    a.file = BaseName.predictorFile base cluster ∧ a.entries = [BaseName.predictor base cluster] := by
  simp only [compilePredictor?, Predictor.ofModel?, bind_eq_ok_iff, map_eq_ok_iff] at h
  obtain ⟨⟨⟩, -, p, ⟨members, -, rfl⟩, h⟩ := h
  obtain rfl := Except.ok.inj h
  exact ⟨rfl, rfl⟩

theorem compileDispatch?_file {router : Artifact} {predictors : List Artifact}
    (h : compileDispatch? base router predictors host = .ok a) :
    a.file = BaseName.dispatchFile base := by
  simp only [compileDispatch?, bind_eq_ok_iff, refuse_eq_ok_iff] at h
  obtain ⟨⟨⟩, -, -, h⟩ := h
  obtain rfl := Except.ok.inj h
  rfl

end Code

theorem ClusterReport.predictor?_eq_ok {r : ClusterReport} {base : String} {host : Host}
    {a : Artifact} (h : r.predictor? base host = .ok a) :
    ∃ m, r.model = some m ∧ compilePredictor? m r.features base r.cluster host = .ok a := by
  unfold predictor? at h
  split at h
  · cases h
  · rename_i m hm
    exact ⟨m, hm, Run.orFail_eq_ok.1 h⟩

/-! ## All headers -/

/-- How the headers of a run come about: a router for its centers, a predictor for each report, in
order, and a dispatch table over these. -/
structure HeaderSet (s : Settings) (report : Report) (base : String) (router : Artifact)
    (predictors : List Artifact) (dispatch : Artifact) : Prop where
  routes : compileRouter? report.centroids report.shapes s.clusters base s.host = .ok router
  predicts : List.Forall₂ (fun c p => c.predictor? base s.host = .ok p) report.clusters predictors
  dispatches : compileDispatch? base router predictors s.host = .ok dispatch

theorem headers?_eq_ok {s : Settings} {report : Report} {base : String} {artifacts : List Artifact}
    (h : headers? s report.clusters report.centroids report.shapes base = .ok artifacts) :
    ∃ router predictors dispatch, HeaderSet s report base router predictors dispatch ∧
      artifacts = router :: predictors ++ [dispatch] := by
  simp only [headers?, bind_eq_ok_iff, Run.orFail_eq_ok, mapM_eq_ok_iff] at h
  obtain ⟨router, hrouter, predictors, hpredictors, dispatch, hdispatch, h⟩ := h
  exact ⟨router, predictors, dispatch, ⟨hrouter, hpredictors, hdispatch⟩, (Except.ok.inj h).symm⟩

namespace HeaderSet

variable {s : Settings} {report : Report} {base : String} {router dispatch : Artifact}
  {predictors : List Artifact}

theorem isValid (h : HeaderSet s report base router predictors dispatch) :
    BaseName.isValid base = true :=
  (exists_compileRouter?_iff.1 ⟨router, h.routes⟩).1

theorem count_eq (h : HeaderSet s report base router predictors dispatch) :
    report.centroids.count = s.clusters :=
  (exists_compileRouter?_iff.1 ⟨router, h.routes⟩).2.2.1.symm

/-- The predictors are named by the clusters of their reports. -/
theorem file_entries (h : HeaderSet s report base router predictors dispatch) : List.Forall₂
    (fun c p => p.file = BaseName.predictorFile base c.cluster ∧
      p.entries = [BaseName.predictor base c.cluster]) report.clusters predictors := by
  refine h.predicts.imp fun c p hp => ?_
  obtain ⟨m, -, hcompile⟩ := ClusterReport.predictor?_eq_ok hp
  exact compilePredictor?_file_entries hcompile

theorem map_file (h : HeaderSet s report base router predictors dispatch)
    (hclusters : report.clusters.map ClusterReport.cluster = List.range s.clusters) :
    predictors.map Artifact.file = (List.range s.clusters).map (BaseName.predictorFile base) := by
  rw [← hclusters, List.map_map]
  exact (map_eq_map_of_forall₂ (h.file_entries.imp fun _ _ hp => hp.1.symm)).symm

/-- No header is included twice. -/
theorem nodup_files (h : HeaderSet s report base router predictors dispatch)
    (hclusters : report.clusters.map ClusterReport.cluster = List.range s.clusters) :
    (router.file :: predictors.map Artifact.file).Nodup := by
  rw [h.map_file hclusters, compileRouter?_file h.routes, List.nodup_cons]
  constructor
  · intro hmem
    obtain ⟨cluster, -, heq⟩ := List.mem_map.1 hmem
    exact BaseName.routerFile_ne_predictorFile base cluster heq.symm
  · exact List.nodup_range.map (BaseName.predictorFile_injective base)

theorem flatMap_entries (h : HeaderSet s report base router predictors dispatch)
    (hclusters : report.clusters.map ClusterReport.cluster = List.range s.clusters) :
    predictors.flatMap Artifact.entries =
      (List.range s.clusters).map (BaseName.predictor base) := by
  have hentries : report.clusters.map (fun c => [BaseName.predictor base c.cluster]) =
      predictors.map Artifact.entries :=
    map_eq_map_of_forall₂ (h.file_entries.imp fun _ _ hp => hp.2.symm)
  rw [List.flatMap_def, ← hentries, ← List.flatMap_def, ← List.map_eq_flatMap, ← hclusters,
    List.map_map]
  rfl

/-- The dispatch header is read as a table of all clusters: what ends a name in it is in none. -/
theorem readTable?_eq (h : HeaderSet s report base router predictors dispatch)
    (hclusters : report.clusters.map ClusterReport.cluster = List.range s.clusters) :
    Source.readTable? base s.host dispatch.text = some
      ⟨router.file :: predictors.map Artifact.file, s.clusters,
        (List.range s.clusters).map (BaseName.predictor base)⟩ := by
  have hbase := Source.word_of_isValid h.isValid
  have hfiles : ∀ file ∈ router.file :: predictors.map Artifact.file, '"' ∉ file.toList := by
    have hheader {name : String} (hname : Source.Word name) : '"' ∉ (name ++ ".h").toList := by
      rw [String.toList_append, List.mem_append, not_or]
      exact ⟨hname.notMem (by decide), by decide⟩
    rw [h.map_file hclusters, compileRouter?_file h.routes, List.forall_mem_cons,
      List.forall_mem_map]
    constructor
    · exact hheader ((Source.word_ofList (by decide)).append hbase)
    · intro c _
      exact hheader (((Source.word_ofList (by decide)).append hbase).append (Source.word_nat c))
  have hfunctions : ∀ f ∈ predictors.flatMap Artifact.entries, ',' ∉ f.toList := by
    rw [h.flatMap_entries hclusters, List.forall_mem_map]
    intro c _
    have hword : Source.Word (BaseName.predictor base c) :=
      ((Source.word_ofList (by decide)).append hbase).append (Source.word_nat c)
    exact hword.notMem (by decide)
  rw [Source.readTable?_tableText hfiles hfunctions
    (Source.toList_compileDispatch? h.dispatches), h.flatMap_entries hclusters, List.length_map,
    List.length_range]

end HeaderSet

namespace Run

/-- Clusters are trained in turn, so a cluster's report stands at its number. -/
theorem exists_report_of_lt {t : Trainer} {labels : List ℕ} {reports : List ClusterReport}
    (h : trainAll? t labels = .ok reports) {cluster : ℕ} (hlt : cluster < t.settings.clusters) :
    ∃ report, reports[cluster]? = some report ∧
      t.train? cluster (membersOf labels cluster) = .ok report := by
  obtain ⟨report, hreport, htrain⟩ :=
    getElem?_of_forall₂ (mapM_eq_ok_iff.1 h) (List.getElem?_range hlt)
  dsimp only at htrain
  split at htrain
  · cases htrain
  · exact ⟨report, hreport, htrain⟩

/-- The headers of a run that succeeds are written first: the router, which has a center for each
cluster, then the predictors by cluster, then the dispatch table. The dispatch header includes the
router and the predictors, in this order, after what the host includes, and its table has an entry
for each cluster. The entry of a cluster is the one entry point of the predictor at its place, and
this was compiled from the model and the features that are reported for the cluster, which was
trained on the rows with its label. -/
theorem headers_in_cluster_order {σ : Type} (fs : FileSystem (StateM σ)) (st st' : σ)
    (s : Settings) (fitter : Fitter) (clusterFitter : ClusterFitter) (d : Dataset)
    (target : HeaderTarget) (plan : Plan) (htarget : s.headers = some target)
    (h : execute fs s fitter clusterFitter d st = (.ok plan, st')) :
    ∃ changes r router predictors dispatch table,
      execute fs.recording s fitter clusterFitter d ⟨st, []⟩ = (.ok plan, ⟨st', changes⟩) ∧
      changes.filterMap Change.file? =
        ((router :: predictors ++ [dispatch]).map fun a : Artifact =>
          (Path.join target.directory a.file, a.text)) ++
        (planGraphs s plan.report ++ planTrace s plan.report).filterMap Step.file? ∧
      router.file = "clustering_" ++ target.base ++ ".h" ∧
      predictors.map Artifact.file = (List.range s.clusters).map
        (fun c => "final_predictor_" ++ target.base ++ Text.nat c ++ ".h") ∧
      dispatch.file = "all_predictors_" ++ target.base ++ ".h" ∧
      compileRouter? plan.report.centroids plan.report.shapes s.clusters target.base s.host =
        .ok router ∧
      plan.report.centroids.count = s.clusters ∧
      Source.readTable? target.base s.host dispatch.text = some table ∧
      table.files = router.file :: predictors.map Artifact.file ∧ table.files.Nodup ∧
      table.size = s.clusters ∧ table.functions.length = s.clusters ∧
      ready? s clusterFitter d = .ok r ∧
      ∀ c < s.clusters, ∃ report model predictor,
        plan.report.clusters[c]? = some report ∧ report.cluster = c ∧
        (∀ i, i ∈ r.members c ↔ r.clustering.labels[i]? = some c) ∧
        ((r.split s fitter c).train ++ (r.split s fitter c).test).Perm (r.members c) ∧
        (r.trainer s fitter).train? c (r.members c) = .ok report ∧
        report.model = some model ∧ predictors[c]? = some predictor ∧
        compilePredictor? model report.features target.base c s.host = .ok predictor ∧
        predictor.entries = ["should_keep_" ++ target.base ++ Text.nat c] ∧
        table.functions[c]? = some ("should_keep_" ++ target.base ++ Text.nat c) := by
  obtain ⟨hplan, changes, hdone, hrecorded⟩ := execute_eq_ok fs h
  obtain ⟨hreport, headers, hheaders, hsteps⟩ := plan?_eq_ok hplan
  obtain ⟨r, hr, htrained⟩ := report?_eq_ok hreport
  have hclusters := (trainAll?_counts htrained).1
  rw [planHeaders?, htarget] at hheaders
  obtain ⟨artifacts, hartifacts, rfl⟩ := map_eq_ok_iff.1 hheaders
  obtain ⟨router, predictors, dispatch, hset, rfl⟩ := headers?_eq_ok hartifacts
  refine ⟨changes, r, router, predictors, dispatch, _, hrecorded, ?_,
    compileRouter?_file hset.routes, hset.map_file hclusters, compileDispatch?_file hset.dispatches,
    hset.routes, hset.count_eq, hset.readTable?_eq hclusters, rfl,
    hset.nodup_files hclusters, rfl, ?_, hr, ?_⟩
  · rw [hdone.files, hsteps, List.append_assoc, List.filterMap_append, files_headerSteps]
  · rw [List.length_map, List.length_range]
  · intro c hc
    obtain ⟨report, hget, htrain⟩ := exists_report_of_lt htrained hc
    have hcluster := (train?_counts htrain).1
    obtain ⟨predictor, hpredictor, hmade⟩ := getElem?_of_forall₂ hset.predicts hget
    obtain ⟨model, hmodel, hcompile⟩ := ClusterReport.predictor?_eq_ok hmade
    -- the predictor is named after the report's own cluster, which is its place in the list
    rw [hcluster] at hcompile
    refine ⟨report, model, predictor, hget, hcluster, fun i => mem_membersOf, r.split_perm s fitter c,
      htrain, hmodel, hpredictor, hcompile, (compilePredictor?_file_entries hcompile).2, ?_⟩
    rw [List.getElem?_map, List.getElem?_range hc]
    rfl

/-- The second entry of a table of two. -/
theorem headers_in_cluster_order_two :
    let f := (TreeFitter.ofSettings everyKind).fitter
    ∃ (plan : Plan) (store : Store) (dispatch : Artifact) (table : Source.Table),
      execute Store.fileSystem everyKind f (Lloyd.fit 3) fiveRows {} = (.ok plan, store) ∧
      plan.report.centroids.count = 2 ∧
      Source.readTable? "short" {} dispatch.text = some table ∧
      table.files =
        ["clustering_short.h", "final_predictor_short0.h", "final_predictor_short1.h"] ∧
      table.size = 2 ∧ table.functions.length = 2 ∧
      ∃ report, plan.report.clusters[1]? = some report ∧ report.cluster = 1 ∧
        table.functions[1]? = some "should_keep_short1" := by
  intro f
  obtain ⟨plan, store, hexecute, -⟩ := exists_execute_everyKind
  obtain ⟨changes, r, router, predictors, dispatch, table, -, -, hrouter, hpredictors, -, -, hcount,
    htable, hfiles, -, hsize, hlength, -, hclusters⟩ :=
    headers_in_cluster_order Store.fileSystem {} store everyKind f (Lloyd.fit 3) fiveRows
      ⟨"short", "out"⟩ plan rfl hexecute
  obtain ⟨report, model, predictor, hget, hcluster, -, -, -, -, -, -, -, hentry⟩ :=
    hclusters 1 (by decide)
  refine ⟨plan, store, dispatch, table, hexecute, hcount, htable, ?_, hsize, hlength, report, hget,
    hcluster, hentry.trans (by decide +kernel)⟩
  rw [hfiles, hrouter, hpredictors]
  decide +kernel

end Run

end ClauseTriage
