import ClauseTriage.Json.Value
import ClauseTriage.Text.Column

/-!
# Writing JSON

Two spaces for each level and one item on each line; empty arrays and objects stay on theirs.
-/
namespace ClauseTriage.Json

/-- A character inside a text. -/
def escapeChar (c : Char) : List Char :=
  match c with
  | '"' => ['\\', '"']
  | '\\' => ['\\', '\\']
  | '\n' => ['\\', 'n']
  | '\r' => ['\\', 'r']
  | '\t' => ['\\', 't']
  | c =>
    if c.toNat = 8 then ['\\', 'b']
    else if c.toNat = 12 then ['\\', 'f']
    else if c.toNat < 0x20 then
      let ds := Nat.toDigits 16 c.toNat
      ['\\', 'u'] ++ Decimal.zeros (4 - ds.length) ++ ds
    else [c]

def textOf (s : String) : String := "\"" ++ String.ofList (s.toList.flatMap escapeChar) ++ "\""

/-- Whole numbers in decimal digits, doubles in the JSON style. -/
def Number.text : Number → String
  | whole n => Text.int n
  | real x => Decimal.Style.json.write x

/-- A line break with the indentation of a level. -/
def breakTo (level : Nat) : String := "\n" ++ String.ofList (List.replicate (2 * level) ' ')

namespace Value

mutual

/-- The text of a value at a level. -/
def pretty (level : Nat) : Value → String
  | null => "null"
  | bool b => if b then "true" else "false"
  | number (some n) => n.text
  | number none => "null"
  | text (some s) => textOf s
  | text none => "null"
  | array [] => "[]"
  | array (v :: rest) =>
    "[" ++ breakTo (level + 1) ++ v.pretty (level + 1) ++ prettyItems (level + 1) rest ++
      breakTo level ++ "]"
  | object [] => "\x7b\x7d"
  | object ((k, v) :: rest) =>
    "\x7b" ++ breakTo (level + 1) ++ textOf (k.getD "") ++ ": " ++ v.pretty (level + 1) ++
      prettyFields (level + 1) rest ++ breakTo level ++ "\x7d"

def prettyItems (level : Nat) : List Value → String
  | [] => ""
  | v :: rest => "," ++ breakTo level ++ v.pretty level ++ prettyItems level rest

def prettyFields (level : Nat) : List (Option String × Value) → String
  | [] => ""
  | (k, v) :: rest =>
    "," ++ breakTo level ++ textOf (k.getD "") ++ ": " ++ v.pretty level ++ prettyFields level rest

end

end Value

end ClauseTriage.Json
