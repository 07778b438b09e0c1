import ClauseTriage.Path
import ClauseTriage.Report.Trace
import ClauseTriage.Run.Headers
import ClauseTriage.Tree.Graph

/-!
# Plans of runs

A run computes everything before it touches a file. Its plan holds the report and the requests to
the file system, in order.
-/
namespace ClauseTriage

/-- A request to the file system. -/
inductive Step where
  | makeDirectories (path : String)
  | writeHeader (path text : String)
  | writeFile (path text : String)
  deriving DecidableEq, Repr

/-- The file that a step writes. -/
def Step.written? : Step → Option String
  | makeDirectories _ => none
  | writeHeader path _ => some path
  | writeFile path _ => some path

/-- The error of a step that is refused. -/
def Step.refusal (cause : SystemError) : Step → RunError
  | writeHeader path _ => .code (.write path cause)
  | _ => .system cause

structure Report where
  clusters : List ClusterReport
  centroids : Centroids Float
  /-- Columns used for routing. -/
  shapes : List String
  issues : Nat

structure Plan where
  report : Report
  steps : List Step

/-- Every file of the plan, in order. -/
def Plan.written (p : Plan) : List String := p.steps.filterMap Step.written?

namespace Run

/-- Rows by cluster. -/
def membersOf (labels : List Nat) (cluster : Nat) : List Nat :=
  (labels.zipIdx.filter fun e => e.1 == cluster).map (·.2)

/-- Every label names a cluster; the first that does not is reported. -/
def checkLabels (clusters : Nat) (labels : List Nat) : Except FitError Unit :=
  match labels.zipIdx.find? fun e => clusters ≤ e.1 with
  | some (label, row) => .error (.clusterOutOfRange row label clusters)
  | none => .ok ()

/-- Trains every cluster, in order; one without rows is an error. -/
def trainAll? (t : Trainer) (labels : List Nat) : Except RunError (List ClusterReport) :=
  (List.range t.settings.clusters).mapM fun cluster =>
    let rows := membersOf labels cluster
    if rows.isEmpty then .error (.emptyCluster cluster) else t.train? cluster rows

/-- The steps that write headers. -/
def headerSteps (target : HeaderTarget) (artifacts : List Code.Artifact) : List Step :=
  .makeDirectories target.directory ::
    artifacts.map fun a => .writeHeader (Path.join target.directory a.file) a.text

/-- The path of a cluster's graph; a single cluster has the path as it is given. -/
def graphPath (path : String) (cluster clusters : Nat) : String :=
  if clusters ≤ 1 then path else Path.numbered path cluster

/-- The step that writes the graph of a cluster's first tree. -/
def graphStep? (path : String) (clusters : Nat) (r : ClusterReport) : Option Step :=
  r.model.map fun m =>
    .writeFile (graphPath path r.cluster clusters) (m.first.dot r.features)

/-- The headers of a run with a base name. -/
def planHeaders? (s : Settings) (report : Report) : Except RunError (List Step) :=
  match s.headers with
  | none => .ok []
  | some target => (headers? s report.clusters report.centroids report.shapes target.base).map
      (headerSteps target)

def planGraphs (s : Settings) (report : Report) : List Step :=
  match s.dotPath with
  | none => []
  | some path => report.clusters.filterMap (graphStep? path report.clusters.length)

def planTrace (s : Settings) (report : Report) : List Step :=
  match s.tracePath with
  | none => []
  | some path => [.writeFile path (traceText report.clusters)]

/-- The report of a run: sampling, clustering, and the training of every cluster. -/
def report? (s : Settings) (fitter : Fitter) (clusterFitter : ClusterFitter) (d : Dataset) :
    Except RunError Report := do
  orFail .settings s.check
  let issues := if s.checkValues then d.issues.length else 0
  let data ← orFail .dataset (d.subset? (d.sample s.sampleFraction s.seed))
  let filter : FeatureFilter := ⟨s.dropRdb1⟩
  let shapes := FeatureFilter.shapes data.names
  let points ← orFail .dataset (data.rows? shapes (List.range data.size))
  let clustering ← orFail .fit (clusterFitter points s.clusters s.seed)
  orFail .fit (checkLabels s.clusters clustering.labels)
  let clusters ← trainAll? ⟨s, fitter, data, filter.candidates data.names⟩ clustering.labels
  return ⟨clusters, clustering.centroids, shapes, issues⟩

/-- The plan of a run: headers, then graphs, then the trace. -/
def plan? (s : Settings) (fitter : Fitter) (clusterFitter : ClusterFitter) (d : Dataset) :
    Except RunError Plan := do
  let report ← report? s fitter clusterFitter d
  let headers ← planHeaders? s report
  return ⟨report, headers ++ planGraphs s report ++ planTrace s report⟩

end Run

end ClauseTriage
