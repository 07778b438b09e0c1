import ClauseTriage.Tree.Outline

/-!
# Graph sources

A tree as a directed graph in the DOT language: one declaration for each node, one edge for each
child.
-/
namespace ClauseTriage

open Decimal

/-- Name of a class. -/
def className (label : Label) : String := if label = 1 then "keep" else "discard"

/-- Impurity, weight and class of a node, as they stand in its label. -/
def Weights.label (w : Weights Float) : String :=
  "gini = " ++ fixed 3 w.impurity ++ "\\nsamples = " ++ plain w.total ++ "\\nvalue = [" ++
    fixed 1 w.discard ++ ", " ++ fixed 1 w.keep ++ "]\\nclass = " ++ className w.heavier

/-- A line of a graph. -/
inductive GraphLine where
  | node (id : Nat) (label : String)
  | edge (source target : Nat) (truth : Bool)
  deriving DecidableEq, Repr

def GraphLine.text : GraphLine → String
  | node id label => Text.nat id ++ " [label=\"" ++ label ++ "\"] ;"
  | edge source target truth =>
    Text.nat source ++ " -> " ++ Text.nat target ++ " [labeldistance=2.5, labelangle=" ++
      (if truth then "45" else "-45") ++ ", headlabel=\"" ++ (if truth then "True" else "False") ++
      "\"] ;"

/-- A node, its first subtree with the edge to it, and its second subtree likewise. -/
def Node.graph (names : List String) : Node Float → List GraphLine
  | .leaf id w => [.node id w.label]
  | .split id w feature threshold low high =>
    .node id (featureName names feature ++ " <= " ++ literal threshold ++ "\\n" ++ w.label) ::
      (low.graph names ++ .edge id low.id true :: (high.graph names ++ [.edge id high.id false]))

def Tree.dot (t : Tree Float) (names : List String) : String :=
  "digraph Tree \x7b\nnode [shape=box] ;\n" ++
    Text.endLines ((t.root.graph names).map GraphLine.text) ++ "\x7d\n"

end ClauseTriage
