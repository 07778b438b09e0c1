import ClauseTriage.Code.Signature
import ClauseTriage.Code.Statement

/-!
# Estimators

One tree as a function that returns the ratio of the leaf it reaches.
-/
namespace ClauseTriage.Code

def estimatorLines (depth : Nat) (name : String) (host : Host) (s : Statement) : List Line :=
  function depth "double" name host (s.lines (depth + 1))

/-- The text of a tree's function. -/
def estimator? (t : Tree Float) (names : List String) (name : String) (host : Host) (depth : Nat) :
    Except CodeError String :=
  (statement? t names (.ofHost host)).map fun s => render (estimatorLines depth name host s)

end ClauseTriage.Code
