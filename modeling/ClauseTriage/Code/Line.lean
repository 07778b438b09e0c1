/-!
# Lines of source

Generated source is a list of lines, each with a depth; four spaces stand for one level.
-/
namespace ClauseTriage.Code

structure Line where
  depth : Nat
  text : String
  deriving DecidableEq, Repr

namespace Line

/-- A line without indentation. -/
def flush (text : String) : Line := ⟨0, text⟩

def blank : Line := ⟨0, ""⟩

def render (l : Line) : String :=
  String.ofList (List.replicate (4 * l.depth) ' ') ++ l.text ++ "\n"

end Line

/-- The text of lines, each with its end. -/
def render (lines : List Line) : String := String.join (lines.map Line.render)

end ClauseTriage.Code
