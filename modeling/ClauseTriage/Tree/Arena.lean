import ClauseTriage.Tree.Weights

/-!
# Arenas of nodes

A tree is stored as a sequence of entries that name their children by position; entry 0 is the root.
Not every sequence is a tree: `Arena.fault?` reports the first reason why one is not.
-/
namespace ClauseTriage

variable {α : Type}

/-- One node of an arena. A left child of `-1` marks a leaf. -/
structure Entry (α : Type) where
  left : Int
  right : Int
  /-- Position of the tested feature. -/
  feature : Int
  threshold : α
  weights : Weights α
  deriving DecidableEq, Repr

/-- Nodes by position. -/
abbrev Arena (α : Type) := Array (Entry α)

/-- Why a sequence of entries is not a tree. -/
inductive TreeError (α : Type) where
  | empty
  | lengths (left right feature threshold value : Nat)
  | notTwoClasses (node got : Nat)
  | halfLeaf (node : Nat)
  | childOutOfRange (node : Nat) (child : Int) (size : Nat)
  | negativeFeature (node : Nat) (feature : Int)
  | notFinite (node : Nat) (threshold : α)
  | reachedTwice (node : Nat)
  | unreachable (node : Nat)
  deriving DecidableEq, Repr

namespace Entry

def isLeaf (e : Entry α) : Bool := e.left == -1

/-- The children of a node, the one for small values first. -/
def children (e : Entry α) : List Nat :=
  if e.isLeaf then [] else [e.left.toNat, e.right.toNat]

variable [Scalar α]

/-- The threshold that stands at a leaf: minus two. -/
def leafThreshold : α := Scalar.zero - Scalar.ofNat 2

def leaf (w : Weights α) : Entry α := ⟨-1, -1, -2, leafThreshold, w⟩

/-- What is wrong with an entry by itself: a node has two children in range, a feature and a finite
threshold, or it has no child at all. -/
def fault? (size node : Nat) (e : Entry α) : Option (TreeError α) :=
  if (e.left == -1) != (e.right == -1) then some (.halfLeaf node)
  else if e.isLeaf then none
  else if e.left < 0 ∨ (size : Int) ≤ e.left then some (.childOutOfRange node e.left size)
  else if e.right < 0 ∨ (size : Int) ≤ e.right then some (.childOutOfRange node e.right size)
  else if e.feature < 0 then some (.negativeFeature node e.feature)
  else if !Scalar.isFinite e.threshold then some (.notFinite node e.threshold)
  else none

end Entry

namespace Arena

/-- Children of the node at a position. -/
def childrenAt (t : Arena α) (id : Nat) : List Nat :=
  match t[id]? with
  | some e => e.children
  | none => []

/-- Depth-first walk from the waiting nodes: which nodes were met, or the first that was met
twice. -/
def walk (t : Arena α) (seen : Array Bool) : List Nat → Except Nat (Array Bool)
  | [] => .ok seen
  | id :: waiting =>
    if h : seen[id]? = some false then
      walk t (seen.set id true (Array.getElem?_eq_some_iff.1 h).1) (t.childrenAt id ++ waiting)
    else .error id
termination_by seen.count false
decreasing_by
  obtain ⟨hi, hv⟩ := Array.getElem?_eq_some_iff.1 h
  have hm : false ∈ seen := hv ▸ Array.getElem_mem hi
  have := Array.count_pos_iff.2 hm
  rw [Array.count_set]
  simp [hv]
  omega

variable [Scalar α]

/-- The first fault that an entry has by itself. -/
def entryFault? (t : Arena α) : Option (TreeError α) :=
  t.toList.zipIdx.findSome? fun (e, node) => e.fault? t.size node

/-- The first fault of the links: a node met twice, or one never met. -/
def linkFault? (t : Arena α) : Option (TreeError α) :=
  match t.walk (Array.replicate t.size false) [0] with
  | .error id => some (.reachedTwice id)
  | .ok seen => (seen.toList.findIdx? (· == false)).map .unreachable

/-- Why the arena is not a tree, if it is not one. -/
def fault? (t : Arena α) : Option (TreeError α) :=
  if t.size = 0 then some .empty else t.entryFault? <|> t.linkFault?

end Arena

end ClauseTriage
