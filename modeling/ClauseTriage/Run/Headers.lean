import ClauseTriage.Code.Dispatch
import ClauseTriage.Code.Predictor
import ClauseTriage.Code.Router
import ClauseTriage.Run.Cluster

/-!
# The headers of a run

A router, one predictor for each cluster, and the dispatch table over them, in this order.
-/
namespace ClauseTriage

open Code

/-- The predictor of a cluster, from its model and its features. -/
def ClusterReport.predictor? (r : ClusterReport) (base : String) (host : Host) :
    Except RunError Artifact :=
  match r.model with
  | none => .error (.notCompilable r.cluster)
  | some m => orFail .code (compilePredictor? m r.features base r.cluster host)

/-- All headers; none is made unless all can be made. -/
def headers? (s : Settings) (reports : List ClusterReport) (centroids : Centroids Float)
    (shapes : List String) (base : String) : Except RunError (List Artifact) := do
  let router ← orFail .code (compileRouter? centroids shapes s.clusters base s.host)
  let predictors ← reports.mapM fun r => r.predictor? base s.host
  let dispatch ← orFail .code (compileDispatch? base router predictors s.host)
  return router :: predictors ++ [dispatch]

end ClauseTriage
