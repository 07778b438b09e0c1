import ClauseTriage.System
import ClauseTriage.Text.Quoted

/-!
# Faults of datasets
-/
namespace ClauseTriage

open Text

/-- Why a table file cannot be read. -/
inductive ReadError where
  | unequalLengths (expected got : Nat)
  | notText
  | system (cause : SystemError)
  deriving DecidableEq, Repr

def ReadError.message : ReadError → String
  | unequalLengths expected got =>
    "CSV error: found record with " ++ nat got ++ " fields, but the previous record has " ++
      nat expected ++ " fields"
  | notText => "CSV parse error: invalid utf-8"
  | system cause => cause.message

/-- Why there is no dataset, or not the requested part of one. -/
inductive DatasetError where
  | read (path : String) (cause : ReadError)
  | missingColumn (name : String)
  | notBinary (classes : Nat)
  | unknownRestart (row : Nat) (value : String)
  | raggedRow (row expected got : Nat)
  | empty
  | unknownFeature (name : String)
  /-- A row number that the dataset does not have. -/
  | rowOutOfRange (row : Nat)
  deriving DecidableEq, Repr

def DatasetError.message : DatasetError → String
  | read path cause => "failed to read dataset " ++ quote path ++ ": " ++ cause.message
  | missingColumn name => "missing required column: " ++ name
  | notBinary classes =>
    "label column has " ++ nat classes ++
      " distinct values; only binary keep/discard labels are supported"
  | unknownRestart row value => "unknown restart type '" ++ value ++ "' at row " ++ nat row
  | raggedRow row expected got =>
    "row " ++ nat row ++ " has " ++ nat got ++ " fields, header has " ++ nat expected
  | empty => "dataset is empty"
  | unknownFeature name => "unknown feature column: " ++ name
  | rowOutOfRange row => "no row " ++ nat row

end ClauseTriage
