import ClauseTriage.Decimal.Shortest

/-!
# Writing doubles

One layout of a decimal, governed by a `Style`, and the three styles of this library: literals of
generated code, plain numbers in messages, and numbers of JSON documents.
-/
namespace ClauseTriage.Decimal

/-- Which powers of ten of the leading digit are written without an exponent. -/
inductive Positional where
  | always
  | between (low high : Int)
  deriving DecidableEq, Repr

/-- The decisions of one way to write doubles. -/
structure Style where
  tie : Tie
  positional : Positional
  /-- Whole numbers keep a point and a zero. -/
  pointed : Bool
  /-- Exponents that are not negative carry a plus sign. -/
  signedExponent : Bool
  /-- The word for a NaN, and for an infinity less its sign. -/
  words : Option (String × String)
  deriving DecidableEq, Repr

/-- Literals: a point always, an exponent below `1e-4` and from `1e16` on. -/
def Style.literal : Style :=
  { tie := .up, positional := .between (-4) 15, pointed := true, signedExponent := false
    words := some ("NaN", "inf") }

/-- Plain text: never an exponent, and no point in a whole number. -/
def Style.plain : Style :=
  { tie := .up, positional := .always, pointed := false, signedExponent := false
    words := some ("NaN", "inf") }

/-- JSON numbers: an exponent below `1e-5` and from `1e16` on; what is not finite is `null`. -/
def Style.json : Style :=
  { tie := .toEven, positional := .between (-5) 15, pointed := true, signedExponent := true
    words := none }

def Positional.holds : Positional → Int → Bool
  | .always, _ => true
  | .between low high, e => low ≤ e && e ≤ high

def zeros (n : Nat) : List Char := List.replicate n '0'

/-- Decimal digits of a natural number. -/
def digitsOf (n : Nat) : List Char := Nat.toDigits 10 n

/-- A decimal without an exponent. -/
def Digits.positional (pointed : Bool) (d : Digits) : List Char :=
  let ds := digitsOf d.digits
  if 0 ≤ d.exponent then
    ds ++ zeros d.exponent.toNat ++ (if pointed then ['.', '0'] else [])
  else
    let places := (-d.exponent).toNat
    if places < ds.length then
      ds.take (ds.length - places) ++ '.' :: ds.drop (ds.length - places)
    else
      '0' :: '.' :: zeros (places - ds.length) ++ ds

/-- The power of ten of the leading digit. -/
def Digits.leading (d : Digits) : Int := d.exponent + (digitsOf d.digits).length - 1

/-- A decimal with one digit before the point and an exponent. -/
def Digits.scientific (signed : Bool) (d : Digits) : List Char :=
  let tail (rest : List Char) : List Char := if rest.isEmpty then [] else '.' :: rest
  let mantissa := match digitsOf d.digits with
    | [] => []
    | first :: rest => first :: tail rest
  let e := d.leading
  let sign := if e < 0 then ['-'] else if signed then ['+'] else []
  mantissa ++ 'e' :: sign ++ digitsOf e.natAbs

def signOf (negative : Bool) : List Char := if negative then ['-'] else []

/-- The text of a double. -/
def Style.chars (s : Style) (x : Float) : List Char :=
  match magnitude x with
  | .notANumber => match s.words with
    | some (nan, _) => nan.toList
    | none => "null".toList
  | .infinite negative => match s.words with
    | some (_, infinity) => signOf negative ++ infinity.toList
    | none => "null".toList
  | .finite b =>
    if b.mantissa = 0 then
      signOf b.negative ++ (if s.pointed then ['0', '.', '0'] else ['0'])
    else
      let d := shortest s.tie b
      signOf b.negative ++
        (if s.positional.holds d.leading then d.positional s.pointed
         else d.scientific s.signedExponent)

def Style.write (s : Style) (x : Float) : String := String.ofList (s.chars x)

/-- The text of a double as a literal. -/
def literal (x : Float) : String := Style.literal.write x

/-- The text of a double in messages. -/
def plain (x : Float) : String := Style.plain.write x

end ClauseTriage.Decimal
