import ClauseTriage.Text.Column

/-!
# Names of a header set

All headers of one run share a base name; files, include guards and declared names are made from it.
-/
namespace ClauseTriage.BaseName

open Text

/-- At least one character, and only ASCII letters, digits and underscores. -/
def isValid (base : String) : Bool :=
  !base.toList.isEmpty && base.toList.all fun c => c.isAlphanum || c = '_'

def routerClass (base : String) : String := "Clustering_" ++ base

def routerFile (base : String) : String := "clustering_" ++ base ++ ".h"

def dispatchFile (base : String) : String := "all_predictors_" ++ base ++ ".h"

def dispatchTable (base : String) : String := "should_keep_" ++ base ++ "_funcs"

def dispatchType (base : String) : String := "keep_func_type_" ++ base

def predictor (base : String) (cluster : Nat) : String := "should_keep_" ++ base ++ nat cluster

def predictorFile (base : String) (cluster : Nat) : String :=
  "final_predictor_" ++ base ++ nat cluster ++ ".h"

/-- The function of one member tree. -/
def estimator (function : String) (index : Nat) : String :=
  "estimator_" ++ function ++ "_" ++ nat index

/-- Include guards are in capitals. -/
def guard (kind base : String) : String :=
  kind ++ "_" ++ String.ofList (base.toList.map Char.toUpper) ++ "_H"

def routerGuard (base : String) : String := guard "CLUSTERING" base

def predictorGuard (function : String) : String := guard "KEEP_PREDICTOR" function

def dispatchGuard (base : String) : String := guard "ALL_PREDICTORS" base

end ClauseTriage.BaseName
