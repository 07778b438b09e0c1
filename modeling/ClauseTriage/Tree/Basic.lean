import ClauseTriage.Tree.Node

/-!
# Decision trees

A `Tree` is an arena in which every node is reached from the root by exactly one way. Its arena
order decides node numbers and the order of sums; its unfolded form decides everything else.
-/
namespace ClauseTriage

variable {α : Type} [Scalar α]

/-- The arena of five parallel lists. -/
def Arena.ofLists (left right feature : List Int) (threshold : List α)
    (weights : List (Weights α)) : Arena α :=
  let links := (left.zip right).zip (feature.zip (threshold.zip weights))
  (links.map fun ((l, r), f, t, w) => (⟨l, r, f, t, w⟩ : Entry α)).toArray

/-- An arena without a fault. -/
structure Tree (α : Type) [Scalar α] where
  arena : Arena α
  valid : arena.fault? = none

namespace Tree

def ofArena? (arena : Arena α) : Except (TreeError α) (Tree α) :=
  match h : arena.fault? with
  | none => .ok ⟨arena, h⟩
  | some e => .error e

/-- The first node whose weights are not a pair. -/
def weightsOf? (values : List (List α)) : Except (TreeError α) (List (Weights α)) :=
  values.zipIdx.mapM fun (value, node) =>
    match Weights.ofList? value with
    | some w => .ok w
    | none => .error (.notTwoClasses node value.length)

/-- A tree from five parallel lists. -/
def ofLists? (left right feature : List Int) (threshold : List α) (values : List (List α)) :
    Except (TreeError α) (Tree α) := do
  let size := feature.length
  if size = 0 then throw .empty
  if left.length ≠ size ∨ right.length ≠ size ∨ threshold.length ≠ size ∨ values.length ≠ size then
    throw (.lengths left.length right.length size threshold.length values.length)
  let weights ← weightsOf? values
  ofArena? (.ofLists left right feature threshold weights)

/-- A root without children. -/
def leaf (w : Weights α) : Tree α :=
  ⟨#[Entry.leaf w], by
    simp [Arena.fault?, Arena.entryFault?, Arena.linkFault?, Entry.fault?, Entry.isLeaf,
      Entry.leaf, Arena.walk, Arena.childrenAt, Entry.children]⟩

/-- The whole tree, unfolded from its root. -/
def root (t : Tree α) : Node α :=
  (t.arena.subtree? t.arena.size 0).getD (.leaf 0 ⟨Scalar.zero, Scalar.zero⟩)

def size (t : Tree α) : Nat := t.arena.size

/-- Positions of the leaves, ascending. -/
def leafIds (t : Tree α) : List Nat :=
  t.arena.toList.zipIdx.filterMap fun (e, id) => if e.isLeaf then some id else none

def leafCount (t : Tree α) : Nat := t.leafIds.length

/-- The tested features, by position of the node. -/
def features (t : Tree α) : List Nat :=
  t.arena.toList.filterMap fun e => if e.isLeaf then none else some e.feature.toNat

/-- The largest tested feature. -/
def maxFeature? (t : Tree α) : Option Nat := t.features.max?

def height (t : Tree α) : Nat := t.root.height

/-- The heavier class at every node. -/
def classes (t : Tree α) : List Label := t.arena.toList.map fun e => e.weights.heavier

/-- Position of the leaf that a row reaches. -/
def leafFor? (t : Tree α) (row : List α) : Option Nat := (t.root.leafFor? row).map (·.1)

/-- Weights of the leaf that a row reaches. -/
def leafWeights? (t : Tree α) (row : List α) : Option (Weights α) :=
  (t.root.leafFor? row).map (·.2)

/-- The class of a row; none where the row lacks a tested feature. -/
def predict? (t : Tree α) (row : List α) : Option Label := (t.leafWeights? row).map Weights.heavier

instance : BEq (Tree α) where
  beq s t := s.arena.size == t.arena.size &&
    (s.arena.toList.zip t.arena.toList).all fun (d, e) =>
      d.left == e.left && d.right == e.right && d.feature == e.feature &&
        Scalar.eq d.threshold e.threshold && d.weights == e.weights

end Tree

end ClauseTriage
