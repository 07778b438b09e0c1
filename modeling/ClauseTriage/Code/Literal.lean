import ClauseTriage.Decimal.Fixed
import ClauseTriage.Decimal.Read
import ClauseTriage.Tree.Weights

/-!
# Literals of generated code

A leaf returns the ratio of its discard weight to its keep weight, both with one decimal; a split
compares with its threshold, written in full.
-/
namespace ClauseTriage.Code

open Decimal

/-- A double as it reads after being written with one decimal. -/
def oneDecimal (x : Float) : Float := (readChars? (fixedChars 1 x)).getD x

/-- What a leaf returns; a keep weight written `0.0` never becomes a divisor. -/
def leafLiteral (w : Weights Float) : String :=
  if oneDecimal w.keep == 0.0 then "1" else fixed 1 w.discard ++ "/" ++ fixed 1 w.keep

/-- The value of `leafLiteral` in the host program. -/
def leafRatio (w : Weights Float) : Float :=
  let keep := oneDecimal w.keep
  if keep == 0.0 then 1.0 else oneDecimal w.discard / keep

/-- A leaf votes keep when its ratio is below one. -/
def votesKeep (w : Weights Float) : Bool := leafRatio w < 1.0

/-- A threshold as a single-precision literal of all its digits. -/
def thresholdLiteral (threshold : Float) : String := literal threshold ++ "f"

end ClauseTriage.Code
