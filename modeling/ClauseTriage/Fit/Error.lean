import ClauseTriage.Model.Error

/-!
# Faults of fitting
-/
namespace ClauseTriage

open Text

/-- Why nothing is fitted. -/
inductive FitError where
  | unsupportedFamily (family : String)
  | emptyTrainingSet
  | tooFewRows (clusters rows : Nat)
  | unknownFeature (name : String)
  | clusterOutOfRange (row label clusters : Nat)
  | invalidModel (cause : ModelError)
  /-- A row, value or label that the data does not have. -/
  | missingEntry
  /-- Weights of a random pick whose sum is not finite. -/
  | unboundedWeights

def FitError.message : FitError → String
  | unsupportedFamily family => "model family '" ++ family ++ "' is not supported by this fitter"
  | emptyTrainingSet => "cannot fit on an empty training set"
  | tooFewRows clusters rows =>
    "cannot fit " ++ nat clusters ++ " clusters on " ++ nat rows ++ " rows"
  | unknownFeature name => "training data has no feature named '" ++ name ++ "'"
  | clusterOutOfRange row label clusters =>
    "row " ++ nat row ++ " was assigned cluster " ++ nat label ++ ", but only " ++ nat clusters ++
      " clusters exist"
  | invalidModel cause => "fitted model is invalid: " ++ cause.message
  | missingEntry => "the training data lacks an entry"
  | unboundedWeights => "the sum of the weights is not finite"

end ClauseTriage
