import ClauseTriage.Cli.Command
import ClauseTriage.Proofs.Run.Written

/-!
# When nothing is written

A run has its plan before it asks for a change, and a command for a single header has the header
before it makes the directory. So what fails for another reason than a refusal of the file system
leaves the files as they were.
-/
namespace ClauseTriage.Cli

open FileSystem

variable {σ : Type} (fs : FileSystem (StateM σ))

/-! ## Documents -/

namespace Action

variable {α β : Type} {x : Action (StateM σ) α} {f : α → Action (StateM σ) β} {st st' : σ}

theorem bind_run_ok {a : α} (h : x.run st = (.ok a, st')) : (x >>= f).run st = (f a).run st' := by
  rw [ExceptT.run_bind]
  simp only [bind, StateT.bind, h]

theorem bind_run_error {e : Ending} (h : x.run st = (.error e, st')) :
    (x >>= f).run st = (.error e, st') := by
  rw [ExceptT.run_bind]
  simp only [bind, StateT.bind, h]
  rfl

end Action

/-- The text of a document, as the answer of the file system tells. -/
def textOf? (path : String) (answer : Except SystemError ByteArray) : Except ModelError String :=
  match answer with
  | .error e => .error (.unreadable path e)
  | .ok bytes =>
    match String.fromUTF8? bytes with
    | some text => .ok text
    | none => .error (.notText path)

theorem loadText_run (path : String) (st : σ) :
    loadText fs path st = (textOf? path (fs.read path st).1, (fs.read path st).2) := by
  simp only [loadText, bind, StateT.bind]
  obtain ⟨⟨e⟩ | ⟨bytes⟩, st'⟩ := fs.read path st
  · rfl
  · simp only [textOf?]
    cases String.fromUTF8? bytes <;> rfl

section

variable {α : Type} (message path : String) (read? : String → String → Except ModelError α)

/-- A document is read once, and nothing else is asked. -/
theorem load_run (st : σ) : (load fs message path read?).run st =
    (((textOf? path (fs.read path st).1).bind (read? path)).mapError
      fun e => .failure (inStep message Failure.ofModel e), (fs.read path st).2) := by
  have htext : (ExceptT.lift (loadText fs path) : Action (StateM σ) _).run st =
      (.ok (textOf? path (fs.read path st).1), (fs.read path st).2) := by
    rw [ExceptT.run_lift]
    simp only [Functor.map, StateT.map, loadText_run]
    rfl
  rw [load, Action.bind_run_ok htext]
  cases (textOf? path (fs.read path st).1).bind (read? path) <;> rfl

/-- The header that is made of a document, or why there is none. -/
def header? (failure : CodeError → Failure) (compile? : α → Except CodeError Code.Artifact)
    (answer : Except SystemError ByteArray) : Except Failure Code.Artifact :=
  match (textOf? path answer).bind (read? path) with
  | .error e => .error (inStep message Failure.ofModel e)
  | .ok x => (compile? x).mapError failure

/-- A command that loads a document, makes a header of it and writes that. -/
def headerCommand (failure : CodeError → Failure) (compile? : α → Except CodeError Code.Artifact)
    (directory : String) : Action (StateM σ) String := do
  let x ← load fs message path read?
  let a ← Action.ofExcept failure (compile? x)
  writeHeader fs directory a
  return ""

/-- Without a header only the document has been asked for. -/
theorem headerCommand_run_error {failure : CodeError → Failure}
    {compile? : α → Except CodeError Code.Artifact} (directory : String) {st : σ} {f : Failure}
    (h : header? message path read? failure compile? (fs.read path st).1 = .error f) :
    (headerCommand fs message path read? failure compile? directory).run st =
      (.error (.failure f), (fs.read path st).2) := by
  have hload := load_run fs message path read? st
  unfold header? at h
  unfold headerCommand
  split at h
  · rename_i e hread
    obtain rfl := Except.error.inj h
    rw [hread] at hload
    exact Action.bind_run_error hload
  · rename_i x hread
    rw [hread] at hload
    rw [Action.bind_run_ok hload]
    cases hcompile : compile? x with
    | error e =>
      rw [hcompile] at h
      obtain rfl := Except.error.inj h
      rfl
    | ok a =>
      rw [hcompile] at h
      cases h

theorem header?_eq_error {failure : CodeError → Failure}
    {compile? : α → Except CodeError Code.Artifact} {answer : Except SystemError ByteArray}
    (h : ∀ x, (textOf? path answer).bind (read? path) = .ok x → ∀ a, compile? x ≠ .ok a) :
    ∃ f, header? message path read? failure compile? answer = .error f := by
  unfold header?
  split
  · exact ⟨_, rfl⟩
  · rename_i x hread
    cases hcompile : compile? x with
    | error e => exact ⟨_, rfl⟩
    | ok a => exact absurd hcompile (h x hread a)

end

/-- What comes of a request for a header whose document does not load, or does not compile: a
failure, and nothing is asked but to read the document. -/
def OnlyReads (r : Request) (path : String) (st : σ) : Prop :=
  ∃ f, (perform fs r).run st = (.error (.failure f), (fs.read path st).2) ∧
    (perform fs.recording r).run ⟨st, []⟩ = (.error (.failure f), ⟨(fs.read path st).2, []⟩)

variable {fs} in
/-- Both commands for a single header are of one kind. -/
theorem onlyReads_of_perform_eq {α : Type} {r : Request} {message path directory : String}
    {read? : String → String → Except ModelError α} {failure : CodeError → Failure}
    {compile? : α → Except CodeError Code.Artifact} {st : σ}
    (hcommand : ∀ {τ : Type} (fs : FileSystem (StateM τ)),
      perform fs r = headerCommand fs message path read? failure compile? directory)
    (h : ∀ x, (textOf? path (fs.read path st).1).bind (read? path) = .ok x →
      ∀ a, compile? x ≠ .ok a) : OnlyReads fs r path st := by
  obtain ⟨f, hf⟩ := header?_eq_error message path read? h
  refine ⟨f, ?_, ?_⟩
  · rw [hcommand]
    exact headerCommand_run_error fs message path read? directory hf
  · rw [hcommand]
    exact headerCommand_run_error fs.recording message path read? directory hf

/-- What fails changes nothing, refusals of the file system apart. A run that ends with another
error leaves the file system as it was, and so does one that is asked for no file. A run that
succeeds writes the files it reports, in order: the headers, a graph for each cluster whose model
has a tree form, and the trace; directories are made for the headers only. A command for a single
header whose document cannot be loaded or compiled only reads. -/
theorem writes_only_what_is_planned (fs : FileSystem (StateM σ)) (st : σ) (s : Settings)
    (fitter : Fitter) (clusterFitter : ClusterFitter) (d : Dataset) :
    (∀ e st', Run.execute fs s fitter clusterFitter d st = (.error e, st') → ¬e.IsRefusal →
      st' = st) ∧
    (∀ plan st', Run.execute fs s fitter clusterFitter d st = (.ok plan, st') →
      ∃ changes headers graphs trace,
        Run.execute fs.recording s fitter clusterFitter d ⟨st, []⟩ = (.ok plan, ⟨st', changes⟩) ∧
        changes.filterMap Change.file? = headers ++ graphs ++ trace ∧
        plan.written = (headers ++ graphs ++ trace).map Prod.fst ∧
        Run.Files s plan.report headers graphs trace ∧
        ∀ path, .directory path ∈ changes →
          ∃ target, s.headers = some target ∧ path ∈ Path.ancestors target.directory) ∧
    (s.headers = none → s.dotPath = none → s.tracePath = none →
      (Run.execute fs s fitter clusterFitter d st).2 = st) ∧
    (∀ r : CompileRequest,
      (∀ model, (textOf? r.model (fs.read r.model st).1).bind (Model.ofText? r.model) = .ok model →
        ∀ a, Code.compileModel? model r.features r.base {} ≠ .ok a) →
      OnlyReads fs (.compile r) r.model st) ∧
    (∀ r : RouterRequest,
      (∀ c, (textOf? r.centroids (fs.read r.centroids st).1).bind
          (NamedCentroids.ofText? r.centroids) = .ok c →
        ∀ a, Code.compileRouter? c.centroids c.names c.centroids.count r.base {} ≠ .ok a) →
      OnlyReads fs (.router r) r.centroids st) := by
  refine ⟨?_, ?_, ?_, ?_, ?_⟩
  · exact fun e st' h he => Run.eq_of_execute_error fs h he
  · intro plan st' h
    obtain ⟨hplan, changes, hdone, hrecorded⟩ := Run.execute_eq_ok fs h
    obtain ⟨headers, graphs, trace, hkinds, hfiles⟩ := Run.exists_files_of_plan? hplan
    refine ⟨changes, headers, graphs, trace, hrecorded, hdone.files.trans hfiles, ?_, hkinds, ?_⟩
    · rw [plan.written_eq, hfiles]
    · intro path hpath
      obtain ⟨directory, hmem, hancestor⟩ := hdone.directories path hpath
      obtain ⟨target, htarget, rfl⟩ := Run.mem_makeDirectories hplan hmem
      exact ⟨target, htarget, hancestor⟩
  · exact Run.eq_of_execute_silent fs st
  · exact fun r h => onlyReads_of_perform_eq (fun _ => rfl) h
  · exact fun r h => onlyReads_of_perform_eq (fun _ => rfl) h

theorem writes_only_what_is_planned_every_kind :
    let f := (TreeFitter.ofSettings Run.everyKind).fitter
    ∃ plan store changes,
      Run.execute Store.fileSystem Run.everyKind f (Lloyd.fit 3) Run.fiveRows {} = (.ok plan, store) ∧
      Run.execute Store.fileSystem.recording Run.everyKind f (Lloyd.fit 3) Run.fiveRows ⟨{}, []⟩ =
        (.ok plan, ⟨store, changes⟩) ∧
      (changes.filterMap Change.file?).map Prod.fst = plan.written ∧
      plan.written = ["out/clustering_short.h", "out/final_predictor_short0.h",
        "out/final_predictor_short1.h", "out/all_predictors_short.h", "tree_0.dot", "tree_1.dot",
        "trace.txt"] := by
  intro f
  obtain ⟨plan, store, hexecute, hwritten⟩ := Run.exists_execute_everyKind
  obtain ⟨-, hsuccess, -⟩ := writes_only_what_is_planned Store.fileSystem {} Run.everyKind f
    (Lloyd.fit 3) Run.fiveRows
  obtain ⟨changes, headers, graphs, trace, hrecorded, hfiles, hall, -⟩ :=
    hsuccess plan store hexecute
  exact ⟨plan, store, changes, hexecute, hrecorded, by rw [hfiles, hall], hwritten⟩

end ClauseTriage.Cli
