import ClauseTriage.Fit.Cart
import ClauseTriage.Fit.Error
import ClauseTriage.Model.Basic

/-!
# Trees and forests from samples
-/
namespace ClauseTriage

open Cart ClauseTriage.Random

/-- The tree of some samples. -/
def fitTree (t : Training Float) (p : Params) (samples : List Nat) (s : Stream) :
    Except FitError (Tree Float) :=
  if samples.isEmpty then .error .emptyTrainingSet
  else match growth? t p samples s with
    | none => .error .missingEntry
    | some g => match g.tree? with
      | .ok tree => .ok tree
      | .error e => .error (.invalidModel (.tree e))

/-- As many row numbers as there are rows, drawn with repetition. -/
def bootstrap (rows : Nat) : Nat → Draw (List Nat)
  | 0 => return []
  | count + 1 => do
    let i ← below64 rows
    return i :: (← bootstrap rows count)

/-- One member: its seed follows from its position. -/
def fitMember (t : Training Float) (p : Params) (seed : UInt64) (index : Nat) :
    Except FitError (Tree Float) :=
  let (samples, s) := bootstrap t.rows.size t.rows.size (Stream.ofSeed (seed + index.toUInt64))
  fitTree t p samples s

/-- Members on samples of their own, at least one. -/
def fitForest (t : Training Float) (p : Params) (members : Nat) (seed : UInt64) :
    Except FitError Ensemble := do
  if t.rows.isEmpty then throw .emptyTrainingSet
  let trees ← (List.range (max 1 members)).mapM (fitMember t p seed)
  match Ensemble.ofList? trees with
  | .ok e => return e
  | .error e => throw (.invalidModel e)

end ClauseTriage
