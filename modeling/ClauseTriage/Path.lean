import ClauseTriage.Text.Column
import ClauseTriage.Text.Pieces

/-!
# Paths

Paths are texts with slashes between their parts. A path keeps what leads nowhere as it is written.
-/
namespace ClauseTriage.Path

/-- The texts between the slashes of a path. -/
def pieces (path : String) : List String := (Text.splitAtEach '/' path.toList).map String.ofList

/-- Nothing between two slashes, and a point alone, lead nowhere. -/
def isIdle (piece : String) : Bool := piece == "" || piece == "."

/-- The parts that lead somewhere. -/
def parts (path : String) : List String := (pieces path).filter fun p => !isIdle p

/-- The path starts at the root. -/
def isAbsolute (path : String) : Bool := path.toList.head? == some '/'

/-- A path inside a directory; one that begins with a slash stands by itself. -/
def join (directory file : String) : String :=
  if isAbsolute file then file
  else if directory.isEmpty then file
  else if directory.toList.getLast? = some '/' then directory ++ file
  else directory ++ "/" ++ file

/-- The name at the end of a path; one without parts, or one that ends in `..`, has none. -/
def name? (path : String) : Option String :=
  match (parts path).getLast? with
  | some n => if n = ".." then none else some n
  | none => none

/-- Beginnings, each up to a part, of a path whose pieces are given from the last to the first; the
longest comes first. -/
def beginnings : List String → List (List String)
  | [] => []
  | p :: rest => if isIdle p then beginnings rest else (p :: rest) :: beginnings rest

/-- A path and the directories around it, the innermost first. A path without parts has none. -/
def ancestors (path : String) : List String :=
  match beginnings (pieces path).reverse with
  | [] => []
  | _ :: outer => path :: outer.map fun b => Text.join "/" b.reverse

/-- The path with its last part taken away. -/
def parent (path : String) : String :=
  (ancestors path)[1]?.getD (if isAbsolute path then "/" else "")

/-- Stem and extension of a name; a point at its front belongs to the stem. -/
def stemAndExtension (name : String) : String × Option String :=
  let reversed := name.toList.reverse
  let extension := reversed.takeWhile (· ≠ '.')
  match reversed.dropWhile (· ≠ '.') with
  | _ :: stem =>
    if stem.isEmpty then (name, none)
    else (String.ofList stem.reverse, some (String.ofList extension.reverse))
  | [] => (name, none)

/-- The path of one of several files: its number stands behind the stem. -/
def numbered (path : String) (index : Nat) : String :=
  let renamed (stem : String) (extension : Option String) : String :=
    stem ++ "_" ++ Text.nat index ++ match extension with
      | some e => "." ++ e
      | none => ""
  match name? path with
  | none => join path (renamed "" none)
  | some name =>
    let (stem, extension) := stemAndExtension name
    join (parent path) (renamed stem extension)

end ClauseTriage.Path
