import ClauseTriage.Powers

/-!
# The exact value of a double

A finite double is a natural number times a power of two. Printing and rounding to fixed places
work on that pair and never on the double itself.
-/
namespace ClauseTriage.Decimal

/-- `mantissa · 2 ^ exponent`, with a sign that zero keeps too. -/
structure Binary where
  negative : Bool
  mantissa : Nat
  exponent : Int
  deriving DecidableEq, Repr

/-- What a double stands for. -/
inductive Magnitude where
  | notANumber
  | infinite (negative : Bool)
  | finite (value : Binary)
  deriving DecidableEq, Repr

/-- Fields of the binary64 format: a sign bit, eleven exponent bits, 52 fraction bits. -/
def ofWord (bits : Nat) : Magnitude :=
  let negative : Bool := bits / pow2 63 % 2 == 1
  let biased : Nat := bits / pow2 52 % pow2 11
  let fraction : Nat := bits % pow2 52
  if biased = 2047 then
    if fraction = 0 then .infinite negative else .notANumber
  else if biased = 0 then
    .finite ⟨negative, fraction, -1074⟩
  else
    .finite ⟨negative, pow2 52 + fraction, (biased : Int) - 1075⟩

def magnitude (x : Float) : Magnitude := ofWord x.toBits.toNat

/-- The value as a quotient of natural numbers, sign apart. -/
def Binary.ratio (b : Binary) : Nat × Nat :=
  if 0 ≤ b.exponent then (b.mantissa * pow2 b.exponent.toNat, 1)
  else (b.mantissa, pow2 (-b.exponent).toNat)

/-- The nearest natural number to `n / d`; a half goes to the even neighbour. -/
def roundDiv (n d : Nat) : Nat :=
  let q := n / d
  let r := n % d
  if 2 * r < d then q else if d < 2 * r then q + 1 else if q % 2 = 0 then q else q + 1

/-- The least natural number that is not below `n / d`. -/
def ceilDiv (n d : Nat) : Nat := if n % d = 0 then n / d else n / d + 1

/-- The least natural number not below `x`; numbers below zero and NaN give 0. -/
def ceil (x : Float) : Nat :=
  match magnitude x with
  | .notANumber => 0
  | .infinite negative => if negative then 0 else pow2 64 - 1
  | .finite b => if b.negative then 0 else let r := b.ratio; ceilDiv r.1 r.2

/-- How many decimal digits `n` has; zero has one. -/
def digitCount (n : Nat) : Nat := (Nat.toDigits 10 n).length

end ClauseTriage.Decimal
