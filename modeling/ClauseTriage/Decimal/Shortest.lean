import ClauseTriage.Decimal.Binary

/-!
# Shortest decimals

The shortest decimal of a double is the one with the fewest digits among those that read back to
it, and the nearest of these. A decimal reads back when it lies in the interval of reals that round
to the double; the ends belong to it exactly when the mantissa is even.
-/
namespace ClauseTriage.Decimal

/-- Which of two equally near decimals is taken. -/
inductive Tie where
  | up
  | toEven
  deriving DecidableEq, Repr

/-- `digits · 10 ^ exponent`, without trailing zeros. -/
structure Digits where
  digits : Nat
  exponent : Int
  deriving DecidableEq, Repr

/-- The reals that round to a double, over a common denominator. -/
structure Interval where
  value : Nat
  lower : Nat
  upper : Nat
  denominator : Nat
  closed : Bool
  deriving Repr

/-- Half a step on each side; below a power of two the step is half as wide. -/
def Binary.interval (b : Binary) : Interval :=
  let below := if b.mantissa = pow2 52 ∧ -1074 < b.exponent then 1 else 2
  let up := (b.exponent - 2).toNat
  let down := (2 - b.exponent).toNat
  { value := 4 * b.mantissa * pow2 up
    lower := (4 * b.mantissa - below) * pow2 up
    upper := (4 * b.mantissa + 2) * pow2 up
    denominator := pow2 down
    closed := b.mantissa % 2 == 0 }

namespace Interval

/-- `digits · 10 ^ exponent` times the denominator, and times `10 ^ -exponent` where that is
whole. -/
def scaled (i : Interval) (d : Digits) : Nat := d.digits * pow10 d.exponent.toNat * i.denominator

/-- A bound of the interval on the same scale as `scaled`. -/
def bound (n : Nat) (d : Digits) : Nat := n * pow10 (-d.exponent).toNat

/-- The decimal reads back to the double. -/
def holds (i : Interval) (d : Digits) : Bool :=
  let x := i.scaled d
  let lo := bound i.lower d
  let hi := bound i.upper d
  if i.closed then lo ≤ x && x ≤ hi else lo < x && x < hi

/-- The power of ten of the leading digit of the value. -/
def leading (i : Interval) : Int :=
  if i.denominator ≤ i.value then (digitCount (i.value / i.denominator) : Int) - 1
  else -(digitCount (ceilDiv i.denominator i.value - 1) : Int)

/-- The two neighbours of the value on the grid of `places` digits. -/
def neighbours (i : Interval) (places : Nat) : Digits × Digits :=
  let exponent := i.leading - places + 1
  let low := bound i.value ⟨0, exponent⟩ / (pow10 exponent.toNat * i.denominator)
  (⟨low, exponent⟩, ⟨low + 1, exponent⟩)

/-- The neighbour nearer to the value, when it reads back; the other one when only that does. -/
def pick (tie : Tie) (i : Interval) (low high : Digits) : Option Digits :=
  match i.holds low, i.holds high with
  | false, false => none
  | true, false => some low
  | false, true => some high
  | true, true =>
    let x := bound i.value low
    let toLow := x - i.scaled low
    let toHigh := i.scaled high - x
    if toLow < toHigh then some low
    else if toHigh < toLow then some high
    else match tie with
      | .up => some high
      | .toEven => if low.digits % 2 = 0 then some low else some high

end Interval

/-- Moves trailing zeros into the exponent. -/
def Digits.strip (d : Digits) : Nat → Digits
  | 0 => d
  | fuel + 1 =>
    if d.digits ≠ 0 ∧ d.digits % 10 = 0 then strip ⟨d.digits / 10, d.exponent + 1⟩ fuel else d

/-- Seventeen digits always suffice for a double, so the first grid with a hit is among these. -/
def shortest (tie : Tie) (b : Binary) : Digits :=
  let i := b.interval
  let grid (places : Nat) : Option Digits :=
    let (low, high) := i.neighbours places
    i.pick tie low high
  let found := (List.range 17).findSome? fun n => grid (n + 1)
  (found.getD (i.neighbours 17).1).strip 20

end ClauseTriage.Decimal
