import ClauseTriage.Proofs.Files.Recording
import ClauseTriage.Proofs.Run.Headers
import ClauseTriage.Proofs.Source.Words
import ClauseTriage.Run.Execution
import ClauseTriage.Store

/-!
# What a run writes

The steps of a plan are carried out in order, so a run that succeeds writes the files of its plan
and no others. A run asks nothing of the file system before it has a plan, and the only errors after
that are refusals of the file system itself.
-/
namespace ClauseTriage

/-- The file that a step writes, with its text. -/
def Step.file? : Step → Option (String × String)
  | makeDirectories _ => none
  | writeHeader path text => some (path, text)
  | writeFile path text => some (path, text)

/-- Every file of a plan with its text, in order. -/
def Plan.files (p : Plan) : List (String × String) := p.steps.filterMap Step.file?

theorem Plan.written_eq (p : Plan) : p.written = p.files.map Prod.fst := by
  rw [written, files, List.map_filterMap]
  congr 1
  funext step
  cases step <;> rfl

/-- The file system has refused a request. -/
def RunError.IsRefusal : RunError → Prop
  | code (.write _ _) => True
  | system _ => True
  | _ => False

/-- Changes that carry out some steps: the files of the steps are written in order, and every
directory that is made lies on the way to one that a step asks for. -/
structure CarriesOut (steps : List Step) (changes : List Change) : Prop where
  files : changes.filterMap Change.file? = steps.filterMap Step.file?
  directories : ∀ path, .directory path ∈ changes →
    ∃ directory, .makeDirectories directory ∈ steps ∧ path ∈ Path.ancestors directory

namespace CarriesOut

theorem nil : CarriesOut [] [] := ⟨rfl, by simp⟩

theorem append {steps more : List Step} {changes later : List Change}
    (h : CarriesOut steps changes) (hmore : CarriesOut more later) :
    CarriesOut (steps ++ more) (changes ++ later) where
  files := by simp only [List.filterMap_append, h.files, hmore.files]
  directories := by
    intro path hpath
    rcases List.mem_append.1 hpath with hpath | hpath
    · obtain ⟨directory, hdirectory, hancestor⟩ := h.directories path hpath
      exact ⟨directory, List.mem_append_left _ hdirectory, hancestor⟩
    · obtain ⟨directory, hdirectory, hancestor⟩ := hmore.directories path hpath
      exact ⟨directory, List.mem_append_right _ hdirectory, hancestor⟩

theorem makeDirectories {directory : String} {changes : List Change}
    (h : FileSystem.MakesOnly (Path.ancestors directory) changes) :
    CarriesOut [.makeDirectories directory] changes where
  files := h.filterMap_file?
  directories := by
    intro path hpath
    obtain ⟨made, hmade, hpath⟩ := h _ hpath
    obtain rfl : path = made := Change.directory.inj hpath
    exact ⟨directory, List.mem_singleton_self _, hmade⟩

theorem write {step : Step} {path text : String} (h : step.file? = some (path, text)) :
    CarriesOut [step] [.file path text] where
  files := by simp [h, Change.file?]
  directories := by simp

end CarriesOut

variable {σ : Type} (fs : FileSystem (StateM σ))

open FileSystem

/-- A step that is not refused is carried out. -/
theorem Step.perform_records (step : Step) :
    Records (fun answer changes => answer = .ok () → CarriesOut [step] changes)
      (step.perform fs.recording) (step.perform fs) := by
  have hwrite {path text : String} (h : step.file? = some (path, text)) :
      Records (fun answer changes => answer = .ok () → CarriesOut [step] changes)
        (fs.recording.write path text) (fs.write path text) := by
    apply (recordingChange_records (.file path text) (fs.write path text)).mono
    rintro answer changes rfl rfl
    exact .write h
  cases step with
  | makeDirectories directory =>
    exact (fs.makeDirectories_records directory).mono fun _ _ h _ => .makeDirectories h
  | writeHeader path text => exact hwrite rfl
  | writeFile path text => exact hwrite rfl

theorem Step.refusal_isRefusal (step : Step) (cause : SystemError) :
    (step.refusal cause).IsRefusal := by
  cases step <;> trivial

/-- How performing some steps ends: they are carried out, or one is refused. -/
def PerformsAll (steps : List Step) (answer : Except RunError Unit) (changes : List Change) :
    Prop :=
  match answer with
  | .ok () => CarriesOut steps changes
  | .error e => e.IsRefusal

theorem Step.performAll_records (steps : List Step) :
    Records (PerformsAll steps) (performAll fs.recording steps) (performAll fs steps) := by
  induction steps with
  | nil => exact .pure .nil
  | cons step rest ih =>
    rw [performAll, performAll]
    apply (step.perform_records fs).bind
    intro answer
    split
    · exact .pure fun _ _ => step.refusal_isRefusal _
    · -- the step was carried out, so its changes come before those of the rest
      refine ih.mono fun answer later hrest earlier hstep => ?_
      match answer with
      | .ok () => exact (hstep rfl).append hrest
      | .error e => exact hrest

/-! ## Paths of graphs -/

namespace Path

/-- Files that both or neither stand by themselves keep their difference inside a directory. -/
theorem join_injective {directory a b : String} (habsolute : isAbsolute a = isAbsolute b)
    (h : join directory a = join directory b) : a = b := by
  unfold join at h
  rw [habsolute] at h
  split at h
  · exact h
  split at h
  · exact h
  split at h
  · exact (String.append_right_inj _).1 h
  · exact (String.append_right_inj _).1 h

/-- Names that go on after the same stem differ in what follows. -/
theorem join_stem_injective {directory stem a b : String} (hstem : stem ≠ "")
    (h : join directory (stem ++ a) = join directory (stem ++ b)) : a = b := by
  have habsolute (t : String) : isAbsolute (stem ++ t) = isAbsolute stem := by
    obtain ⟨c, rest, hc⟩ := List.exists_cons_of_ne_nil (mt String.toList_eq_nil_iff.1 hstem)
    simp [isAbsolute, hc]
  exact (String.append_right_inj _).1
    (join_injective ((habsolute a).trans (habsolute b).symm) h)

/-- Numbers tell paths apart. -/
theorem numbered_injective (path : String) : Function.Injective (numbered path) := by
  have hrenamed {directory stem suffix : String} {i j : ℕ}
      (h : join directory (stem ++ "_" ++ Text.nat i ++ suffix) =
        join directory (stem ++ "_" ++ Text.nat j ++ suffix)) : i = j := by
    have hassoc (k : ℕ) : stem ++ "_" ++ Text.nat k ++ suffix =
        (stem ++ "_") ++ (Text.nat k ++ suffix) := String.append_assoc
    -- with the bar the stem is not empty, so it alone decides whether the name stands by itself
    rw [hassoc, hassoc] at h
    exact Source.nat_injective ((String.append_left_inj _).1 (join_stem_injective (by simp) h))
  intro i j h
  unfold numbered at h
  cases hname : name? path with
  | none =>
    simp only [hname] at h
    exact hrenamed h
  | some name =>
    simp only [hname] at h
    exact hrenamed h

end Path

namespace Run

variable (s : Settings) (fitter : Fitter) (clusterFitter : ClusterFitter) (d : Dataset)

/-- How a run ends: its plan is carried out, a step of its plan is refused, or there is no plan, and
then nothing is changed. -/
def Executes (answer : Except RunError Plan) (changes : List Change) : Prop :=
  match answer with
  | .ok plan => plan? s fitter clusterFitter d = .ok plan ∧ CarriesOut plan.steps changes
  | .error e => e.IsRefusal ∨ plan? s fitter clusterFitter d = .error e ∧ changes = []

theorem execute_records :
    Records (Executes s fitter clusterFitter d) (execute fs.recording s fitter clusterFitter d)
      (execute fs s fitter clusterFitter d) := by
  unfold execute
  cases hplan : plan? s fitter clusterFitter d with
  | error e => exact .pure (.inr ⟨hplan, rfl⟩)
  | ok plan =>
    apply (Step.performAll_records fs plan.steps).bind
    intro answer
    split
    · exact .pure fun _ hrefusal => .inl hrefusal
    · refine .pure fun changes hdone => ⟨hplan, ?_⟩
      rwa [List.append_nil]

section

variable {s : Settings} {fitter : Fitter} {clusterFitter : ClusterFitter} {d : Dataset}

/-- A run that ends with another error than a refusal had no plan, and asked for nothing. -/
theorem eq_of_execute_error {st st' : σ} {e : RunError}
    (h : execute fs s fitter clusterFitter d st = (.error e, st')) (he : ¬e.IsRefusal) :
    st' = st := by
  obtain ⟨changes, -, hends⟩ := execute_records fs s fitter clusterFitter d ⟨st, []⟩
  rw [h] at hends
  obtain hrefusal | ⟨hplan, -⟩ := hends
  · exact absurd hrefusal he
  · rw [execute, hplan] at h
    exact (congrArg Prod.snd h).symm

/-- The plan of a run that succeeds, and the changes that carried it out. -/
theorem execute_eq_ok {st st' : σ} {plan : Plan}
    (h : execute fs s fitter clusterFitter d st = (.ok plan, st')) :
    plan? s fitter clusterFitter d = .ok plan ∧ ∃ changes, CarriesOut plan.steps changes ∧
      execute fs.recording s fitter clusterFitter d ⟨st, []⟩ = (.ok plan, ⟨st', changes⟩) := by
  obtain ⟨changes, hrecorded, hends⟩ := execute_records fs s fitter clusterFitter d ⟨st, []⟩
  rw [h] at hrecorded hends
  exact ⟨hends.1, changes, hends.2, hrecorded⟩

/-- A run that is asked for no file asks for nothing. -/
theorem eq_of_execute_silent (st : σ) (hheaders : s.headers = none) (hdot : s.dotPath = none)
    (htrace : s.tracePath = none) : (execute fs s fitter clusterFitter d st).2 = st := by
  unfold execute
  cases hplan : plan? s fitter clusterFitter d with
  | error e => rfl
  | ok plan =>
    obtain ⟨-, headers, hnone, hsteps⟩ := plan?_eq_ok hplan
    rw [planHeaders?, hheaders] at hnone
    obtain rfl := Except.ok.inj hnone
    rw [planGraphs, hdot, planTrace, htrace] at hsteps
    simp only [hsteps]
    rfl

end

/-! ## The files of a plan -/

/-- The file of a cluster's graph, if its model has a tree form. -/
def graphFile? (path : String) (clusters : ℕ) (c : ClusterReport) : Option (String × String) :=
  c.model.map fun m => (graphPath path c.cluster clusters, m.first.dot c.features)

theorem files_headerSteps (target : HeaderTarget) (artifacts : List Code.Artifact) :
    (headerSteps target artifacts).filterMap Step.file? =
      artifacts.map fun a => (Path.join target.directory a.file, a.text) := by
  rw [headerSteps, List.filterMap_cons_none rfl, List.filterMap_map]
  exact congrFun List.filterMap_eq_map artifacts

theorem files_planGraphs {s : Settings} {path : String} (h : s.dotPath = some path)
    (report : Report) : (planGraphs s report).filterMap Step.file? =
      report.clusters.filterMap (graphFile? path report.clusters.length) := by
  rw [planGraphs, h, List.filterMap_filterMap]
  congr 1
  funext c
  rw [graphStep?, graphFile?]
  cases c.model <;> rfl

/-- The steps that make directories are those of the headers. -/
theorem mem_makeDirectories {s : Settings} {fitter : Fitter} {clusterFitter : ClusterFitter}
    {d : Dataset} {plan : Plan} (h : plan? s fitter clusterFitter d = .ok plan) {directory : String}
    (hmem : .makeDirectories directory ∈ plan.steps) :
    ∃ target, s.headers = some target ∧ directory = target.directory := by
  obtain ⟨-, headers, hheaders, hsteps⟩ := plan?_eq_ok h
  rw [hsteps, List.mem_append, List.mem_append] at hmem
  rcases hmem with (hmem | hmem) | hmem
  · unfold planHeaders? at hheaders
    split at hheaders
    · obtain rfl := Except.ok.inj hheaders
      cases hmem
    · rename_i target htarget
      obtain ⟨artifacts, -, rfl⟩ := map_eq_ok_iff.1 hheaders
      refine ⟨target, htarget, ?_⟩
      simpa [headerSteps] using hmem
  · unfold planGraphs at hmem
    split at hmem
    · cases hmem
    · simp [graphStep?] at hmem
  · unfold planTrace at hmem
    split at hmem
    · cases hmem
    · simp at hmem

theorem graphPath_injective {clusters : ℕ} (h : 1 < clusters) (path : String) :
    Function.Injective fun cluster => graphPath path cluster clusters := by
  intro i j hpath
  simp only [graphPath, if_neg (Nat.not_le_of_lt h)] at hpath
  exact Path.numbered_injective path hpath

/-- Every cluster has a graph of its own. -/
theorem graphFiles_nodup {t : Trainer} {labels : List ℕ} {reports : List ClusterReport}
    (h : trainAll? t labels = .ok reports) (path : String) :
    ((reports.filterMap (graphFile? path reports.length)).map Prod.fst).Nodup := by
  by_cases hseveral : 1 < reports.length
  · have hclusters : (reports.map ClusterReport.cluster).Nodup := by
      rw [(trainAll?_counts h).1]
      exact List.nodup_range
    rw [List.Nodup, List.pairwise_map, List.pairwise_filterMap]
    refine (List.pairwise_map.1 hclusters).imp fun {a b} hne x hx y hy hpath => hne ?_
    obtain ⟨m, -, rfl⟩ := Option.map_eq_some_iff.1 hx
    obtain ⟨m', -, rfl⟩ := Option.map_eq_some_iff.1 hy
    exact graphPath_injective hseveral path hpath
  · -- a single cluster's path has no number, and no other path to differ from
    have hnodup {files : List (String × String)} (h : files.length ≤ 1) :
        (files.map Prod.fst).Nodup := by
      match files, h with
      | [], _ => exact List.nodup_nil
      | [file], _ => exact List.nodup_singleton _
    exact hnodup ((List.length_filterMap_le _ _).trans (Nat.le_of_not_lt hseveral))

/-- The files of a run by kind. Where no path is given for a kind there is no file of it. -/
structure Files (s : Settings) (report : Report) (headers graphs trace : List (String × String)) :
    Prop where
  headers_none : s.headers = none → headers = []
  headers_some : ∀ target, s.headers = some target → ∃ artifacts,
    headers? s report.clusters report.centroids report.shapes target.base = .ok artifacts ∧
      headers = artifacts.map fun a => (Path.join target.directory a.file, a.text)
  graphs_none : s.dotPath = none → graphs = []
  /-- A file of its own for each cluster whose model has a tree form. -/
  graphs_some : ∀ path, s.dotPath = some path →
    graphs = report.clusters.filterMap (graphFile? path report.clusters.length) ∧
      (graphs.map Prod.fst).Nodup
  trace_none : s.tracePath = none → trace = []
  trace_some : ∀ path, s.tracePath = some path → trace = [(path, traceText report.clusters)]

/-- A plan writes headers, then graphs, then the trace. -/
theorem exists_files_of_plan? {s : Settings} {fitter : Fitter} {clusterFitter : ClusterFitter}
    {d : Dataset} {plan : Plan} (h : plan? s fitter clusterFitter d = .ok plan) :
    ∃ headers graphs trace, Files s plan.report headers graphs trace ∧
      plan.files = headers ++ graphs ++ trace := by
  obtain ⟨hreport, headers, hheaders, hsteps⟩ := plan?_eq_ok h
  obtain ⟨r, -, hclusters⟩ := report?_eq_ok hreport
  refine ⟨headers.filterMap Step.file?, (planGraphs s plan.report).filterMap Step.file?,
    (planTrace s plan.report).filterMap Step.file?, ?_, ?_⟩
  · constructor
    · intro hnone
      rw [planHeaders?, hnone] at hheaders
      obtain rfl := Except.ok.inj hheaders
      rfl
    · intro target htarget
      rw [planHeaders?, htarget] at hheaders
      obtain ⟨artifacts, hartifacts, rfl⟩ := map_eq_ok_iff.1 hheaders
      exact ⟨artifacts, hartifacts, files_headerSteps target artifacts⟩
    · intro hnone
      rw [planGraphs, hnone]
      rfl
    · intro path hpath
      rw [files_planGraphs hpath]
      exact ⟨rfl, graphFiles_nodup hclusters path⟩
    · intro hnone
      rw [planTrace, hnone]
      rfl
    · intro path hpath
      rw [planTrace, hpath]
      rfl
  · rw [Plan.files, hsteps, List.filterMap_append, List.filterMap_append]

/-- A run of two clusters that writes files of every kind. -/
def everyKind : Settings :=
  { fourOfFive with
    headers := some ⟨"short", "out"⟩, dotPath := some "tree.dot", tracePath := some "trace.txt" }

/-- On an empty store that run writes all its files. -/
theorem exists_execute_everyKind : ∃ plan store,
    execute Store.fileSystem everyKind (TreeFitter.ofSettings everyKind).fitter (Lloyd.fit 3)
      fiveRows {} = (.ok plan, store) ∧
    plan.written = ["out/clustering_short.h", "out/final_predictor_short0.h",
      "out/final_predictor_short1.h", "out/all_predictors_short.h", "tree_0.dot", "tree_1.dot",
      "trace.txt"] := by
  have hrun : (execute Store.fileSystem everyKind (TreeFitter.ofSettings everyKind).fitter
      (Lloyd.fit 3) fiveRows {}).1.toOption.map Plan.written =
        some ["out/clustering_short.h", "out/final_predictor_short0.h",
          "out/final_predictor_short1.h", "out/all_predictors_short.h", "tree_0.dot", "tree_1.dot",
          "trace.txt"] := by decide +kernel
  obtain ⟨plan, hplan, hwritten⟩ := exists_of_toOption_map hrun
  exact ⟨plan, _, Prod.ext hplan rfl, hwritten⟩

end Run

end ClauseTriage
