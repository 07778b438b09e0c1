import ClauseTriage.Tree.Arena

/-!
# Unfolded trees

The nodes below a position of an arena as an inductive tree. Walks, printers and emitters recurse on
this form; every node keeps its position in the arena.
-/
namespace ClauseTriage

variable {α : Type}

/-- A binary decision tree. A value takes the first branch of a split when it is not above the
threshold. -/
inductive Node (α : Type) where
  | leaf (id : Nat) (weights : Weights α)
  | split (id : Nat) (weights : Weights α) (feature : Nat) (threshold : α) (low high : Node α)
  deriving Repr

namespace Node

def id : Node α → Nat
  | leaf id _ => id
  | split id .. => id

def weights : Node α → Weights α
  | leaf _ w => w
  | split _ w .. => w

/-- Number of nodes. -/
def size : Node α → Nat
  | leaf .. => 1
  | split _ _ _ _ low high => 1 + low.size + high.size

def leafCount : Node α → Nat
  | leaf .. => 1
  | split _ _ _ _ low high => low.leafCount + high.leafCount

/-- Greatest number of splits on a way down. -/
def height : Node α → Nat
  | leaf .. => 0
  | split _ _ _ _ low high => 1 + max low.height high.height

/-- Nodes in preorder, the branch of small values first. -/
def preorder : Node α → List (Node α)
  | leaf id w => [leaf id w]
  | split id w f t low high => split id w f t low high :: (low.preorder ++ high.preorder)

variable [Scalar α]

/-- The leaf that a row reaches; none where the row lacks a tested feature. -/
def leafFor? (row : List α) : Node α → Option (Nat × Weights α)
  | leaf id w => some (id, w)
  | split _ _ feature threshold low high =>
    match row[feature]? with
    | none => none
    | some value => if Scalar.le value threshold then low.leafFor? row else high.leafFor? row

end Node

/-- The nodes below a position, as deep as the fuel reaches. -/
def Arena.subtree? (t : Arena α) : Nat → Nat → Option (Node α)
  | 0, _ => none
  | fuel + 1, id =>
    match t[id]? with
    | none => none
    | some e =>
      if e.isLeaf then some (.leaf id e.weights)
      else
        match t.subtree? fuel e.left.toNat, t.subtree? fuel e.right.toNat with
        | some low, some high =>
          some (.split id e.weights e.feature.toNat e.threshold low high)
        | _, _ => none

end ClauseTriage
