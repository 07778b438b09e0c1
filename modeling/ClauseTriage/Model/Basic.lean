import ClauseTriage.Code.Literal
import ClauseTriage.Model.Error
import ClauseTriage.Tree.Importance
import ClauseTriage.Votes

/-!
# Fitted models

One tree, or an ensemble whose members vote. A model decides a row in two ways: by the classes of
its leaves, and as the source compiled from it does.
-/
namespace ClauseTriage

/-- Trees that read the same features, at least one. -/
structure Ensemble where
  members : List (Tree Float)
  nonempty : members ≠ []

def Ensemble.ofList? (members : List (Tree Float)) : Except ModelError Ensemble :=
  if h : members = [] then .error .emptyEnsemble else .ok ⟨members, h⟩

inductive Model where
  | single (tree : Tree Float)
  | ensemble (e : Ensemble)

/-- Votes of members for the two classes. -/
def tally (classes : List Label) : List Nat := [classes.count 0, classes.count 1]

namespace Model

/-- Member trees; a single tree is its only member. -/
def trees : Model → List (Tree Float)
  | single tree => [tree]
  | ensemble e => e.members

/-- The first member. -/
def first : Model → Tree Float
  | single tree => tree
  | ensemble e => e.members.head e.nonempty

/-- The class of a row: that of the only tree, or the vote of the members, in which discard wins
a draw. None where the row lacks a tested feature. -/
def predict? (m : Model) (row : List Float) : Option Label :=
  match m with
  | single tree => tree.predict? row
  | ensemble e =>
    (e.members.mapM fun t : Tree Float => t.predict? row).map fun classes =>
      majorityClass (tally classes)

/-- The decision of the compiled source: a member votes keep when its leaf ratio is below one, and
half of the members, rounded up, suffice. -/
def compiledKeep? (m : Model) (row : List Float) : Option Bool :=
  (m.trees.mapM fun t : Tree Float => t.leafWeights? row).map fun leaves =>
    keepThreshold m.trees.length ≤ leaves.countP Code.votesKeep

/-- Mean importances of the members. -/
def importances (m : Model) (width : Nat) : List Float :=
  let total := m.trees.foldl (fun acc t => acc.zipWith (· + ·) (t.importances width))
    (List.replicate width 0.0)
  total.map (· / Float.ofNat m.trees.length)

instance : BEq Model where
  beq
    | single s, single t => s == t
    | ensemble d, ensemble e => d.members == e.members
    | _, _ => false

end Model

end ClauseTriage
