import ClauseTriage.Scalar

/-!
# Summary numbers

Gini impurity of class weights, and mean and deviation of a list of doubles.
-/
namespace ClauseTriage

variable {α : Type} [Scalar α]

open Scalar

/-- Gini impurity of class weights: one less the sum of squared shares. Without any weight it is
zero. -/
def gini (weights : List α) : α :=
  let total := sum weights
  if le total zero then zero
  else one - sum (weights.map fun w => square (w / total))

/-- Population mean and standard deviation; both are zero for an empty list. -/
def meanDeviation (values : List Float) : Float × Float :=
  if values.isEmpty then (0.0, 0.0)
  else
    let n := Float.ofNat values.length
    let mean := sum values / n
    let variance := sum (values.map fun v => square (v - mean)) / n
    (mean, variance.sqrt)

end ClauseTriage
