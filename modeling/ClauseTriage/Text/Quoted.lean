import ClauseTriage.Text.Column
import ClauseTriage.Text.Printable

/-!
# Quoted texts

A text between double quotes. The quote and the backslash are escaped, so are the usual controls,
and a character that does not print alone is written by its number.
-/
namespace ClauseTriage.Text

/-- Lower-case hexadecimal digits. -/
def hex (n : Nat) : List Char := Nat.toDigits 16 n

/-- A character inside quotes. -/
def quoteChar (c : Char) : List Char :=
  if c = '"' then ['\\', '"']
  else if c = '\\' then ['\\', '\\']
  else if c = '\n' then ['\\', 'n']
  else if c = '\r' then ['\\', 'r']
  else if c = '\t' then ['\\', 't']
  else if c.toNat = 0 then ['\\', '0']
  else if isPrintable c then [c]
  else ['\\', 'u', Char.ofNat 0x7b] ++ hex c.toNat ++ [Char.ofNat 0x7d]

def quote (s : String) : String :=
  "\"" ++ String.ofList (s.toList.flatMap quoteChar) ++ "\""

/-- A list of texts in brackets. -/
def quoteAll (items : List String) : String := "[" ++ join ", " (items.map quote) ++ "]"

end ClauseTriage.Text
