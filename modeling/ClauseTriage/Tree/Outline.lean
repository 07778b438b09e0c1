import ClauseTriage.Decimal.Fixed
import ClauseTriage.Text.Column
import ClauseTriage.Tree.Basic

/-!
# Outlines

A tree as indented text with one line for each node, in preorder.
-/
namespace ClauseTriage

open Decimal

/-- Name of a feature; one without a name is a question mark. -/
def featureName (names : List String) (feature : Nat) : String := names.getD feature "?"

/-- The lines of a subtree; `lead` stands before its first line. -/
def Node.outline (names : List String) (lead : String) : Node Float → List String
  | .leaf id w =>
    [lead ++ "Leaf(discard = " ++ plain w.discard ++ ", keep = " ++ plain w.keep ++ ") [ID: " ++
      Text.nat id ++ "]"]
  | .split id _ feature threshold low high =>
    (lead ++ "Node(" ++ featureName names feature ++ " <= " ++ fixed 4 threshold ++ "?) [ID: " ++
      Text.nat id ++ "]") ::
      (low.outline names (lead ++ "  |-- True: ") ++
        high.outline names (lead ++ "  \x60-- False:"))

def Tree.outline (t : Tree Float) (names : List String) : String :=
  Text.endLines (t.root.outline names "")

end ClauseTriage
