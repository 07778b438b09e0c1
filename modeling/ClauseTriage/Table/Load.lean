import ClauseTriage.Decimal.Read
import ClauseTriage.Table.Dataset
import ClauseTriage.Table.Records

/-!
# From a table file to a dataset

The label column is given by name. The restart column holds names of restart strategies, any other
column becomes a feature when all its fields are numbers or empty.
-/
namespace ClauseTriage.Dataset

open Table

/-- Numbers of the restart strategies. -/
def restartCodes : List (String × Float) := [("luby", 0.0), ("glue", 1.0), ("geom", 2.0)]

/-- A field as a number; an empty one is missing. -/
def numeric? (field : String) : Option Float :=
  if field.isEmpty then some (0.0 / 0.0) else Decimal.read? field

/-- A restart strategy by name or number. -/
def restart? (field : String) : Option Float :=
  match restartCodes.find? fun r => r.1 == field with
  | some r => some r.2
  | none => Decimal.read? field

def restartColumn? (fields : List String) : Except DatasetError (List Float) :=
  fields.zipIdx.mapM fun (field, row) =>
    match restart? field with
    | some x => .ok x
    | none => .error (.unknownRestart row field)

/-- A label that is written as zero or one. -/
def numericLabel? (field : String) : Option Label :=
  match Decimal.read? field with
  | some x => if x == 0.0 then some 0 else if x == 1.0 then some 1 else none
  | none => none

/-- Labels: zeros and ones as they are, otherwise the larger of two texts is class 1. -/
def labels? (fields : List String) : Except DatasetError (List Label) :=
  match fields.mapM numericLabel? with
  | some labels => .ok labels
  | none =>
    let texts := fields.eraseDups
    if 2 < texts.length then .error (.notBinary texts.length)
    else .ok (fields.map fun f =>
      if texts.length = 2 ∧ texts.all (fun t => decide (t ≤ f)) then 1 else 0)

/-- The position of the label column. -/
def labelPosition? (header : List String) (label : String) : Except DatasetError Nat :=
  match header.idxOf? label with
  | some i => .ok i
  | none => .error (.missingColumn label)

/-- The fields of one column. -/
def fieldsAt (records : List (List String)) (i : Nat) : List String :=
  records.map fun r => r.getD i ""

/-- The column of a name, or none where it is not numeric. -/
def feature? (restart : String) (name : String) (fields : List String) :
    Except DatasetError (Option (String × List Float)) :=
  if name = restart then (restartColumn? fields).map fun xs => some (name, xs)
  else .ok ((fields.mapM numeric?).map fun xs => (name, xs))

/-- The dataset of a header and records of its length. -/
def ofRecords? (header : List String) (records : List (List String)) (label restart : String) :
    Except DatasetError Dataset := do
  let position ← labelPosition? header label
  if records.isEmpty then throw .empty
  let labels ← labels? (fieldsAt records position)
  let others := header.zipIdx.filter fun h => h.2 != position
  let features ← others.mapM fun (name, i) => feature? restart name (fieldsAt records i)
  let kept := features.filterMap id
  ofColumns? (kept.map (·.1)) (kept.map (·.2)) labels

/-- The texts of a record that has `expected` fields. -/
def record? (expected : Nat) (fields : List Bytes) : Except ReadError (List String) :=
  if fields.length ≠ expected then .error (.unequalLengths expected fields.length)
  else match fields.mapM fieldText? with
    | some texts => .ok texts
    | none => .error .notText

/-- The dataset of a table file. The header is read first; then the records, in order; what they
say is looked at last. -/
def ofBytes? (path : String) (bytes : Bytes) (label restart : String) :
    Except DatasetError Dataset := do
  let all := Table.records bytes
  let first := all.headD []
  let header ← (record? first.length first).mapError (.read path)
  let _ ← labelPosition? header label
  let records ← (all.tail.mapM (record? first.length)).mapError (.read path)
  ofRecords? header records label restart

end ClauseTriage.Dataset
