/-!
# Numbers

Trees, centroids and scores are computed over any `Scalar`: binary64 when the program runs, exact
fractions when a law is about the arithmetic and not about its rounding.
-/
namespace ClauseTriage

/-- A number type with the order and the predicates of doubles. -/
class Scalar (α : Type) extends Add α, Sub α, Mul α, Div α where
  /-- The number nearest to a count. -/
  ofNat : Nat → α
  /-- Where a running sum starts; adding it changes no number. -/
  sumStart : α
  lt : α → α → Bool
  le : α → α → Bool
  isFinite : α → Bool
  isNaN : α → Bool
  /-- Strictly below the largest finite number. -/
  belowLargest : α → Bool

namespace Scalar

variable {α : Type} [Scalar α]

/-- Equality of numbers: zeros of both signs are equal, and a NaN equals nothing. -/
def eq (x y : α) : Bool := le x y && le y x

def zero : α := ofNat 0

def one : α := ofNat 1

/-- Left-to-right sum. -/
def sum (xs : List α) : α := xs.foldl (· + ·) sumStart

def square (x : α) : α := x * x

/-- The larger of a number and zero; a NaN counts as zero. -/
def clampBelow (x : α) : α := if lt zero x then x else zero

end Scalar

/-- The largest finite double. -/
def largestDouble : Float := Float.ofBits 0x7fefffffffffffff

/-- Doubles. A sum starts at minus zero, the one double that leaves every other unchanged. -/
instance : Scalar Float where
  ofNat := Float.ofNat
  sumStart := -0.0
  lt x y := decide (x < y)
  le x y := decide (x ≤ y)
  isFinite := Float.isFinite
  isNaN := Float.isNaN
  belowLargest x := decide (x < largestDouble)

/-- Exact fractions: every number is finite. -/
instance : Scalar Rat where
  ofNat n := n
  sumStart := 0
  lt x y := decide (x < y)
  le x y := decide (x ≤ y)
  isFinite _ := true
  isNaN _ := false
  belowLargest _ := true

end ClauseTriage
