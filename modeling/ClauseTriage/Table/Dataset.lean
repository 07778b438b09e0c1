import ClauseTriage.Decimal.Style
import ClauseTriage.Table.Error
import ClauseTriage.Tree.Weights

/-!
# Datasets

Named columns of doubles with a label for each row. A name looks up the last column that has it.
-/
namespace ClauseTriage

/-- Columns of one length and as many labels. -/
structure Dataset where
  names : List String
  columns : List (Array Float)
  labels : Array Label
  deriving Repr

namespace Dataset

/-- A dataset of given columns; the first fault is reported. -/
def ofColumns? (names : List String) (columns : List (List Float)) (labels : List Label) :
    Except DatasetError Dataset := do
  if names.length ≠ columns.length then throw (.raggedRow 0 names.length columns.length)
  if labels.isEmpty then throw .empty
  match columns.zipIdx.find? fun (c, _) => c.length != labels.length with
  | some (c, i) => throw (.raggedRow i labels.length c.length)
  | none => pure ()
  match labels.find? fun l => 1 < l with
  | some bad => throw (.notBinary (bad + 1))
  | none => pure ()
  return ⟨names, columns.map List.toArray, labels.toArray⟩

/-- Number of rows. -/
def size (d : Dataset) : Nat := d.labels.size

/-- The last column of a name. -/
def column? (d : Dataset) (name : String) : Option (Array Float) :=
  ((d.names.zip d.columns).reverse.find? fun c => c.1 == name).map (·.2)

/-- The entry of a row. -/
def valueAt? {α : Type} (xs : Array α) (row : Nat) : Except DatasetError α :=
  match xs[row]? with
  | some x => .ok x
  | none => .error (.rowOutOfRange row)

/-- The columns of a list of features; the first missing name is reported. -/
def columns? (d : Dataset) (features : List String) : Except DatasetError (List (Array Float)) :=
  features.mapM fun name =>
    match d.column? name with
    | some c => .ok c
    | none => .error (.unknownFeature name)

/-- For each row the values of some features. -/
def rows? (d : Dataset) (features : List String) (rows : List Nat) :
    Except DatasetError (List (List Float)) := do
  let columns ← d.columns? features
  rows.mapM fun row => columns.mapM fun c => valueAt? c row

/-- The labels of some rows. -/
def labelsAt? (d : Dataset) (rows : List Nat) : Except DatasetError (List Label) :=
  rows.mapM (valueAt? d.labels)

/-- Only some rows, in their order. -/
def subset? (d : Dataset) (rows : List Nat) : Except DatasetError Dataset := do
  let labels ← d.labelsAt? rows
  let columns ← d.columns.mapM fun c => rows.mapM (valueAt? c)
  return ⟨d.names, columns.map List.toArray, labels.toArray⟩

/-- A value that does not fit the numbers of the host program. -/
structure ValueIssue where
  row : Nat
  column : String
  value : Float

def ValueIssue.message (i : ValueIssue) : String :=
  "row " ++ Text.nat i.row ++ ": issue with data for feature " ++ i.column ++ ": " ++
    Decimal.plain i.value

/-- The largest number of the host program: binary32 has no larger one. -/
def hostLimit : Float := Float.ofBits 0x47efffffe0000000

def isIssue (x : Float) : Bool := !x.isFinite || hostLimit < x.abs

/-- Row by row, the values that are not finite or too large. -/
def issues (d : Dataset) : List ValueIssue :=
  (List.range d.size).flatMap fun row =>
    (d.names.zip d.columns).filterMap fun (name, column) =>
      match column[row]? with
      | some x => if isIssue x then some ⟨row, name, x⟩ else none
      | none => none

end Dataset

end ClauseTriage
