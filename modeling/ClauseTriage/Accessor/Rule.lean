import ClauseTriage.Text.Pieces

/-!
# Rename rules

One textual step on the way from a column name to an expression of the host program.
-/
namespace ClauseTriage.Accessor

open Text

/-- A rewriting of names. -/
inductive Rule where
  /-- Takes a leading text away. -/
  | dropFront (front : String)
  /-- Replaces every occurrence of a text. -/
  | replaceAll (old new : String)
  /-- Renames one whole name. -/
  | rename (old new : String)
  /-- Takes a leading `<stem><digits>_` away where something follows it. -/
  | dropGeneration (stem : String)
  /-- Exchanges a leading text for another, unless that one is there already. -/
  | swapFront (old new : String)
  deriving DecidableEq, Repr

/-- The name behind a generation `<stem><digits>_`, where there is one. -/
def unqualified? (stem name : List Char) : Option (List Char) :=
  match stripFront? stem name with
  | none => none
  | some rest =>
    if (rest.takeWhile Char.isDigit).isEmpty then none
    else match rest.dropWhile Char.isDigit with
      | '_' :: c :: unqualified => some (c :: unqualified)
      | _ => none

namespace Rule

/-- A rule on the characters of a name. -/
def applyChars : Rule → List Char → List Char
  | .dropFront front, name => (stripFront? front.toList name).getD name
  | .replaceAll old new, name => Text.replaceAll old.toList new.toList name
  | .rename old new, name => if name = old.toList then new.toList else name
  | .dropGeneration stem, name => (unqualified? stem.toList name).getD name
  | .swapFront old new, name =>
    if startsWith new.toList name then name
    else match stripFront? old.toList name with
      | some rest => new.toList ++ rest
      | none => name

def apply (r : Rule) (name : String) : String := String.ofList (r.applyChars name.toList)

end Rule

/-- Rules one after the other. -/
def applyAll (rules : List Rule) (name : String) : String :=
  rules.foldl (fun name rule => rule.apply name) name

end ClauseTriage.Accessor
