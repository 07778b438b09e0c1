import ClauseTriage.Accessor.Resolver
import ClauseTriage.Code.Error
import ClauseTriage.Code.Line
import ClauseTriage.Code.Literal
import ClauseTriage.Tree.Basic

/-!
# Trees as statements

An unfolded tree becomes nested conditionals over accessors; each leaf becomes a `return`.
-/
namespace ClauseTriage.Code

open Accessor

/-- The body of a generated estimator. -/
inductive Statement where
  | result (literal : String)
  | branch (accessor threshold : String) (low high : Statement)
  deriving DecidableEq, Repr

namespace Statement

/-- The statement of a tree; a feature is read through its accessor. -/
def ofNode (accessors : List String) : Node Float → Statement
  | .leaf _ w => result (leafLiteral w)
  | .split _ _ feature threshold low high =>
    branch (accessors.getD feature "") (thresholdLiteral threshold) (ofNode accessors low)
      (ofNode accessors high)

/-- The lines of a statement, one level deeper inside a branch. -/
def lines (depth : Nat) : Statement → List Line
  | result literal => [⟨depth, "return " ++ literal ++ ";"⟩]
  | branch accessor threshold low high =>
    ⟨depth, "if ( " ++ accessor ++ " <= " ++ threshold ++ " ) \x7b"⟩ ::
      (low.lines (depth + 1) ++ ⟨depth, "\x7d else \x7b"⟩ ::
        (high.lines (depth + 1) ++ [⟨depth, "\x7d"⟩]))

end Statement

/-- Every tested feature has a name. -/
def checkFeatures (t : Tree Float) (names : List String) : Except CodeError Unit :=
  match t.maxFeature? with
  | none => .ok ()
  | some index =>
    if names.length ≤ index then .error (.featureOutOfRange index names.length) else .ok ()

/-- The statement of a tree whose features have names. -/
def statement? (t : Tree Float) (names : List String) (resolver : Resolver) :
    Except CodeError Statement :=
  (checkFeatures t names).map fun () => Statement.ofNode (resolver.resolveAll names) t.root

/-- The text of `statement?`. -/
def body? (t : Tree Float) (names : List String) (resolver : Resolver) (depth : Nat) :
    Except CodeError String :=
  (statement? t names resolver).map fun s => render (s.lines depth)

end ClauseTriage.Code
