import ClauseTriage.Json.Value

/-!
# Reading JSON

The strict grammar: one value with blanks around it, no comments, no trailing commas, no leading
zeros.
-/
namespace ClauseTriage.Json

def isBlank (c : Char) : Bool := c = ' ' || c = '\n' || c = '\t' || c = '\r'

def skipBlanks (s : List Char) : List Char := s.dropWhile isBlank

/-- Digits, at least one. -/
def digits? (s : List Char) : Option (List Char × List Char) :=
  let ds := s.takeWhile Char.isDigit
  if ds.isEmpty then none else some (ds, s.dropWhile Char.isDigit)

/-- The part after `e` of a number. -/
def exponent? (s : List Char) : Option ((Bool × List Char) × List Char) :=
  let (down, r) := match s with
    | '+' :: r => (false, r)
    | '-' :: r => (true, r)
    | r => (false, r)
  (digits? r).map fun (ds, rest) => ((down, ds), rest)

/-- The whole part: zero alone, or digits that do not begin with zero. -/
def whole? (s : List Char) : Option (List Char × List Char) :=
  match digits? s with
  | some ('0' :: _ :: _, _) => none
  | r => r

/-- A number after its sign. -/
def number? (negative : Bool) (s : List Char) : Option (Written × List Char) := do
  let (whole, s) ← whole? s
  let (fraction, s) ← match s with
    | '.' :: r => (digits? r).map fun (ds, rest) => (some ds, rest)
    | r => some (none, r)
  let (exponent, s) ← match s with
    | 'e' :: r | 'E' :: r => (exponent? r).map fun (e, rest) => (some e, rest)
    | r => some (none, r)
  return ((Token.mk negative whole fraction exponent).number, s)

/-- Value of a hexadecimal digit. -/
def hexDigit? (c : Char) : Option Nat :=
  if c.isDigit then some (digitValue c)
  else if 'a' ≤ c ∧ c ≤ 'f' then some (c.toNat - 'a'.toNat + 10)
  else if 'A' ≤ c ∧ c ≤ 'F' then some (c.toNat - 'A'.toNat + 10)
  else none

/-- Four hexadecimal digits. -/
def unit? : List Char → Option (Nat × List Char)
  | a :: b :: c :: d :: rest => do
    let a ← hexDigit? a
    let b ← hexDigit? b
    let c ← hexDigit? c
    let d ← hexDigit? d
    return (((a * 16 + b) * 16 + c) * 16 + d, rest)
  | _ => none

/-- A character of a text, or half of a pair. -/
inductive Piece where
  | char (c : Char)
  | unit (n : Nat)
  deriving DecidableEq, Repr

/-- The character of a short escape. -/
def escape? (c : Char) : Option Char :=
  match c with
  | '"' | '\\' | '/' => some c
  | 'b' => some (Char.ofNat 8)
  | 'f' => some (Char.ofNat 12)
  | 'n' => some '\n'
  | 'r' => some '\r'
  | 't' => some '\t'
  | _ => none

/-- The pieces of a text up to its closing quote. -/
def pieces? : Nat → List Char → Option (List Piece × List Char)
  | 0, _ => none
  | fuel + 1, s =>
    match s with
    | [] => none
    | '"' :: rest => some ([], rest)
    | '\\' :: 'u' :: r => do
      let (n, rest) ← unit? r
      let (ps, rest) ← pieces? fuel rest
      return (.unit n :: ps, rest)
    | '\\' :: c :: r => do
      let e ← escape? c
      let (ps, rest) ← pieces? fuel r
      return (.char e :: ps, rest)
    | c :: r =>
      if c.toNat < 0x20 then none
      else do
        let (ps, rest) ← pieces? fuel r
        return (.char c :: ps, rest)

/-- Joins pairs of units; none where a half stands alone. -/
def joinPieces? : List Piece → Option (List Char)
  | [] => some []
  | .char c :: rest => (joinPieces? rest).map (c :: ·)
  | .unit high :: .unit low :: rest =>
    if 0xD800 ≤ high ∧ high < 0xDC00 then
      if 0xDC00 ≤ low ∧ low < 0xE000 then
        (joinPieces? rest).map
          (Char.ofNat (0x10000 + (high - 0xD800) * 0x400 + (low - 0xDC00)) :: ·)
      else none
    else if 0xDC00 ≤ high ∧ high < 0xE000 then none
    else (joinPieces? (.unit low :: rest)).map (Char.ofNat high :: ·)
  | .unit n :: rest =>
    if 0xD800 ≤ n ∧ n < 0xE000 then none else (joinPieces? rest).map (Char.ofNat n :: ·)

/-- A text after its opening quote. -/
def text? (s : List Char) : Option (Option String × List Char) :=
  (pieces? (s.length + 1) s).map fun (ps, rest) => ((joinPieces? ps).map String.ofList, rest)

/-- A fixed word. -/
def word? (word : String) (v : Value) (s : List Char) : Option (Value × List Char) :=
  if word.toList.isPrefixOf s then some (v, s.drop word.length) else none

mutual

/-- A value after blanks. -/
def value? : Nat → List Char → Option (Value × List Char)
  | 0, _ => none
  | fuel + 1, s =>
    match skipBlanks s with
    | '[' :: r =>
      match skipBlanks r with
      | ']' :: rest => some (.array [], rest)
      | r => (items? fuel r).map fun (items, rest) => (.array items, rest)
    | '\x7b' :: r =>
      match skipBlanks r with
      | '\x7d' :: rest => some (.object [], rest)
      | r => (fields? fuel r).map fun (fields, rest) => (.object fields, rest)
    | '"' :: r => (text? r).map fun (s, rest) => (.text s, rest)
    | '-' :: r => (number? true r).map fun (n, rest) => (.number n, rest)
    | 't' :: r => word? "rue" (.bool true) r
    | 'f' :: r => word? "alse" (.bool false) r
    | 'n' :: r => word? "ull" .null r
    | r => (number? false r).map fun (n, rest) => (.number n, rest)

/-- Items up to the closing bracket, at least one. -/
def items? : Nat → List Char → Option (List Value × List Char)
  | 0, _ => none
  | fuel + 1, s =>
    match value? fuel s with
    | none => none
    | some (v, r) =>
      match skipBlanks r with
      | ',' :: r => (items? fuel r).map fun (items, rest) => (v :: items, rest)
      | ']' :: rest => some ([v], rest)
      | _ => none

/-- Fields up to the closing brace, at least one. -/
def fields? : Nat → List Char → Option (List (Option String × Value) × List Char)
  | 0, _ => none
  | fuel + 1, s =>
    match skipBlanks s with
    | '"' :: r =>
      match text? r with
      | none => none
      | some (key, r) =>
        match skipBlanks r with
        | ':' :: r =>
          match value? fuel r with
          | none => none
          | some (v, r) =>
            match skipBlanks r with
            | ',' :: r => (fields? fuel r).map fun (fields, rest) => ((key, v) :: fields, rest)
            | '\x7d' :: rest => some ([(key, v)], rest)
            | _ => none
        | _ => none
    | _ => none

end

/-- The value that a text writes, if it writes one. A value has no more parts than characters. -/
def parse? (s : String) : Option Value :=
  let cs := s.toList
  match value? (2 * cs.length + 2) cs with
  | some (v, rest) => if (skipBlanks rest).isEmpty then some v else none
  | none => none

end ClauseTriage.Json
