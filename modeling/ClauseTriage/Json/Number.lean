import ClauseTriage.Decimal.Style

/-!
# JSON numbers

A whole number that fits 64 bits keeps its value. Any other number becomes a double through a
significand of 64 bits and a power of ten: digits that no longer fit are dropped, and the
significand is scaled by one product or quotient.
-/
namespace ClauseTriage.Json

/-- A number of a document. -/
inductive Number where
  | whole (n : Int)
  | real (x : Float)

/-- A number that a document writes; none where it lies past every finite double. -/
abbrev Written := Option Number

/-- Value of a digit. -/
def digitValue (c : Char) : Nat := c.toNat - '0'.toNat

/-- The largest significand. -/
def significandLimit : Nat := pow2 64 - 1

/-- Takes digits into the significand until one does not fit: the significand, how many were taken,
and the rest. -/
def takeDigits (significand taken : Nat) : List Char → Nat × Nat × List Char
  | [] => (significand, taken, [])
  | c :: ds =>
    let next := 10 * significand + digitValue c
    if significandLimit < next then (significand, taken, c :: ds)
    else takeDigits next (taken + 1) ds

/-- Powers of ten up to the largest that is a finite double. -/
def powerOfTen (n : Nat) : Float := Float.ofScientific 1 false n

/-- Scales a significand. A power past the largest one is applied in several steps. -/
def scale (x : Float) (exponent : Int) : Nat → Option Float
  | 0 => some x
  | steps + 1 =>
    if exponent.natAbs ≤ 308 then
      if 0 ≤ exponent then
        let y := x * powerOfTen exponent.natAbs
        if y.isInf then none else some y
      else some (x / powerOfTen exponent.natAbs)
    else if x == 0.0 then some x
    else if 0 ≤ exponent then none
    else scale (x / powerOfTen 308) (exponent + 308) steps

/-- Exponents saturate at 31 bits. -/
def exponentLimit : Nat := pow2 31 - 1

/-- The double of a significand with its powers of ten: of the digits, and of the exponent part. -/
def realOf (negative : Bool) (significand : Nat) (shift : Int) (exponent : Option (Bool × Nat)) :
    Written :=
  let signed (x : Float) : Float := if negative then -x else x
  let start := Float.ofNat significand
  let scaled (e : Int) : Written := (scale start e 4).map fun x => .real (signed x)
  match exponent with
  | none => scaled shift
  | some (down, size) =>
    if exponentLimit < size then
      if significand ≠ 0 ∧ !down then none else some (.real (signed 0.0))
    else
      let e := if down then shift - size else shift + size
      scaled (max (-(exponentLimit : Int) - 1) (min exponentLimit e))

/-- The parts of a number as it is written. -/
structure Token where
  negative : Bool
  whole : List Char
  fraction : Option (List Char)
  exponent : Option (Bool × List Char)
  deriving DecidableEq, Repr

/-- Value of a list of digits. -/
def digitsValue (ds : List Char) : Nat := ds.foldl (fun n c => 10 * n + digitValue c) 0

/-- The number of a token. Minus zero is not whole. -/
def Token.number (t : Token) : Written :=
  let (significand, _, dropped) := takeDigits 0 0 t.whole
  let exponent := t.exponent.map fun (down, ds) => (down, digitsValue ds)
  match t.fraction with
  | some ds =>
    let (significand, taken, _) := takeDigits significand 0 ds
    realOf t.negative significand ((dropped.length : Int) - taken) exponent
  | none =>
    if exponent.isSome || !dropped.isEmpty then
      realOf t.negative significand dropped.length exponent
    else if !t.negative then some (.whole significand)
    else if significand = 0 ∨ pow2 63 < significand then
      some (.real (-(Float.ofNat significand)))
    else some (.whole (-(significand : Int)))

/-- A number as a double. -/
def Number.toFloat : Number → Float
  | whole n => if n < 0 then -(Float.ofNat n.natAbs) else Float.ofNat n.natAbs
  | real x => x

end ClauseTriage.Json
