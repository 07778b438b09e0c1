import ClauseTriage.Code.Error
import ClauseTriage.Fit.Error
import ClauseTriage.Selection.Search
import ClauseTriage.Table.Error

/-!
# Faults of runs
-/
namespace ClauseTriage

open Text

def SearchError.message : SearchError FitError → String
  | emptyPool => "candidate pool is empty"
  | scoring features cause =>
    "scoring feature set " ++ quoteAll features ++ " failed: " ++ cause.message

/-- Why a run does not finish. -/
inductive RunError where
  | settings (cause : SettingsError)
  | dataset (cause : DatasetError)
  | fit (cause : FitError)
  | code (cause : CodeError)
  | search (cause : SearchError FitError)
  | emptyCluster (cluster : Nat)
  | notCompilable (cluster : Nat)
  | system (cause : SystemError)

def RunError.message : RunError → String
  | settings cause => cause.message
  | dataset cause => cause.message
  | fit cause => cause.message
  | code cause => cause.message
  | search cause => cause.message
  | emptyCluster cluster => "cluster " ++ nat cluster ++ " received no rows"
  | notCompilable cluster =>
    "final model for cluster " ++ nat cluster ++ " has no compilable tree form"
  | system cause => "I/O error: " ++ cause.message

/-- Puts the error of a part into that of the whole. -/
def orFail {ε δ α : Type} (wrap : ε → δ) : Except ε α → Except δ α
  | .ok x => .ok x
  | .error e => .error (wrap e)

end ClauseTriage
