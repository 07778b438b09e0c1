import ClauseTriage.Decimal.Binary
import ClauseTriage.Random.Draw
import ClauseTriage.Table.Dataset

/-!
# Random parts of a dataset
-/
namespace ClauseTriage

open ClauseTriage.Random

/-- A share of a number of rows, rounded up. -/
def shareOf (fraction : Float) (rows : Nat) : Nat := Decimal.ceil (fraction * Float.ofNat rows)

/-- A random share of the rows, at least one if there is any. -/
def Dataset.sample (d : Dataset) (fraction : Float) (seed : UInt64) : List Nat :=
  let keep := min (max 1 (shareOf fraction d.size)) (max 1 d.size)
  (shuffled seed (List.range d.size)).take keep

/-- Rows on the two sides of a split. -/
structure Split where
  train : List Nat
  test : List Nat
  deriving DecidableEq, Repr

/-- Splits rows at random; the test side gets the share. -/
def Split.ofRows (rows : List Nat) (testFraction : Float) (seed : UInt64) : Split :=
  let order := shuffled seed rows
  let tests := min (shareOf testFraction rows.length) rows.length
  ⟨order.drop tests, order.take tests⟩

end ClauseTriage
