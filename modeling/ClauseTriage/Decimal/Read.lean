import ClauseTriage.Decimal.Binary

/-!
# Reading decimals

A decimal has an optional sign, digits with an optional point, at least one digit in all, and an
optional exponent; the words `inf`, `infinity` and `nan` stand in any case. Its double is the one
nearest to it, a half going to the even one.
-/
namespace ClauseTriage.Decimal

/-- `digits · 10 ^ exponent` with a sign. -/
structure Parts where
  negative : Bool
  digits : Nat
  exponent : Int
  deriving DecidableEq, Repr

/-- Digits read after those already read. -/
def valueOfDigits (start : Nat) (ds : List Char) : Nat :=
  ds.foldl (fun n c => 10 * n + (c.toNat - '0'.toNat)) start

/-- The nearest double. Past every finite double it is infinite, below half the least one zero. -/
def Parts.toFloat (p : Parts) : Float :=
  let top := p.exponent + digitCount p.digits
  let size : Float :=
    if p.digits = 0 ∨ top < -330 then 0.0
    else if 330 < top then 1.0 / 0.0
    else if 0 ≤ p.exponent then Float.ofScientific p.digits false p.exponent.toNat
    else Float.ofScientific p.digits true (-p.exponent).toNat
  if p.negative then -size else size

/-- Sign and rest of a text. -/
def splitSign : List Char → Bool × List Char
  | '+' :: r => (false, r)
  | '-' :: r => (true, r)
  | r => (false, r)

/-- The digits after a point, where there is one, and the rest of a text. -/
def splitPoint : List Char → List Char × List Char
  | '.' :: r => (r.takeWhile Char.isDigit, r.dropWhile Char.isDigit)
  | r => ([], r)

/-- The part after `e`: an optional sign and at least one digit. -/
def readExponent? (cs : List Char) : Option Int :=
  let (negative, ds) := splitSign cs
  if ds.isEmpty || !ds.all Char.isDigit then none
  else
    let n := valueOfDigits 0 ds
    some (if negative then -(n : Int) else n)

/-- The power of ten of the last digit. After the digits a text ends, or an exponent follows. -/
def lastPlace? (places : Nat) : List Char → Option Int
  | [] => some (-(places : Int))
  | c :: r => if c = 'e' ∨ c = 'E' then (readExponent? r).map (· - places) else none

/-- Digits, point and exponent, after the sign. -/
def readUnsigned? (negative : Bool) (cs : List Char) : Option Parts :=
  let whole := cs.takeWhile Char.isDigit
  let (fraction, rest) := splitPoint (cs.dropWhile Char.isDigit)
  if whole.isEmpty && fraction.isEmpty then none
  else (lastPlace? fraction.length rest).map fun exponent =>
    ⟨negative, valueOfDigits (valueOfDigits 0 whole) fraction, exponent⟩

/-- What a text writes. -/
inductive Numeral where
  | notANumber (negative : Bool)
  | infinite (negative : Bool)
  | decimal (parts : Parts)
  deriving DecidableEq, Repr

def Numeral.toFloat : Numeral → Float
  | notANumber _ => 0.0 / 0.0
  | infinite negative => if negative then -(1.0 / 0.0) else 1.0 / 0.0
  | decimal parts => parts.toFloat

/-- The word of the binary64 format; it keeps the sign of what is not a number. -/
def Numeral.word : Numeral → UInt64
  | notANumber negative => if negative then 0xfff8000000000000 else 0x7ff8000000000000
  | n => n.toFloat.toBits

/-- What a list of characters writes, if it writes anything. -/
def numeral? (cs : List Char) : Option Numeral :=
  let (negative, rest) := splitSign cs
  let word := rest.map Char.toLower
  if word = "inf".toList ∨ word = "infinity".toList then some (.infinite negative)
  else if word = "nan".toList then some (.notANumber negative)
  else (readUnsigned? negative rest).map .decimal

/-- The double that a list of characters writes, if it writes one. -/
def readChars? (cs : List Char) : Option Float := (numeral? cs).map Numeral.toFloat

/-- The double that a text writes, if it writes one. -/
def read? (s : String) : Option Float := readChars? s.toList

end ClauseTriage.Decimal
