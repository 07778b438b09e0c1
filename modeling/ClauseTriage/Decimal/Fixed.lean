import ClauseTriage.Decimal.Style

/-!
# Fixed places

A double rounded to a number of decimal places. The exact value is rounded, and a half goes to the
even neighbour; a sign stays even where every digit is zero.
-/
namespace ClauseTriage.Decimal

/-- The value in units of `10 ^ -places`. -/
def Binary.units (places : Nat) (b : Binary) : Nat :=
  let r := b.ratio
  roundDiv (r.1 * pow10 places) r.2

/-- `units / 10 ^ places` with every place written. -/
def unitsText (places units : Nat) : List Char :=
  let fraction := digitsOf (units % pow10 places)
  digitsOf (units / pow10 places) ++ '.' :: zeros (places - fraction.length) ++ fraction

/-- A double with `places` decimals; what is not finite keeps its name. -/
def fixedChars (places : Nat) (x : Float) : List Char :=
  match magnitude x with
  | .notANumber => ['N', 'a', 'N']
  | .infinite negative => signOf negative ++ ['i', 'n', 'f']
  | .finite b => signOf b.negative ++ unitsText places (b.units places)

def fixed (places : Nat) (x : Float) : String := String.ofList (fixedChars places x)

end ClauseTriage.Decimal
