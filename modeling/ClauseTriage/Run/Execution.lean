import ClauseTriage.FileSystem
import ClauseTriage.Run.Plan

/-!
# Execution of plans

The steps of a plan are requests to a file system, made in order until one is refused.
-/
namespace ClauseTriage

variable {m : Type → Type} [Monad m]

/-- Makes the request of a step. -/
def Step.perform (fs : FileSystem m) : Step → m (Except SystemError Unit)
  | makeDirectories path => fs.makeDirectories path
  | writeHeader path text => fs.write path text
  | writeFile path text => fs.write path text

/-- Performs steps up to the first that is refused. -/
def Step.performAll (fs : FileSystem m) : List Step → m (Except RunError Unit)
  | [] => return .ok ()
  | step :: rest => do
    match ← step.perform fs with
    | .error e => return .error (step.refusal e)
    | .ok () => performAll fs rest

/-- Runs on a file system. Without a plan nothing is asked of it. -/
def Run.execute (fs : FileSystem m) (s : Settings) (fitter : Fitter)
    (clusterFitter : ClusterFitter) (d : Dataset) : m (Except RunError Plan) :=
  match Run.plan? s fitter clusterFitter d with
  | .error e => return .error e
  | .ok p => do
    match ← Step.performAll fs p.steps with
    | .error e => return .error e
    | .ok () => return .ok p

end ClauseTriage
