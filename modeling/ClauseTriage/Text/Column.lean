/-!
# Numbers and columns of text

The texts of whole numbers, lists with separators, and padding to a width.
-/
namespace ClauseTriage.Text

/-- Items with a separator between each two. -/
def join (separator : String) (items : List String) : String :=
  match items with
  | [] => ""
  | first :: rest => rest.foldl (fun text item => text ++ separator ++ item) first

/-- Each line with an end. -/
def endLines (lines : List String) : String := String.join (lines.map (· ++ "\n"))

/-- The text of a natural number. -/
def nat (n : Nat) : String := String.ofList (Nat.toDigits 10 n)

/-- The text of an integer. -/
def int (n : Int) : String := if n < 0 then "-" ++ nat n.natAbs else nat n.natAbs

/-- Spaces that bring a text of `length` characters to `width`. -/
def fill (width length : Nat) : String := String.ofList (List.replicate (width - length) ' ')

/-- The text at the left of a column. -/
def padRight (width : Nat) (s : String) : String := s ++ fill width s.length

/-- The text at the right of a column. -/
def padLeft (width : Nat) (s : String) : String := fill width s.length ++ s

end ClauseTriage.Text
