import ClauseTriage.Tree.Basic

/-!
# Grown trees

A tree as it grows, without node numbers, and its arena in preorder: a split stands before its first
branch, which stands before its second.
-/
namespace ClauseTriage

variable {α : Type}

inductive Growth (α : Type) where
  | leaf (weights : Weights α)
  | split (weights : Weights α) (feature : Nat) (threshold : α) (low high : Growth α)
  deriving Repr

namespace Growth

/-- Number of nodes. -/
def size : Growth α → Nat
  | leaf _ => 1
  | split _ _ _ low high => 1 + low.size + high.size

variable [Scalar α]

/-- Entries in preorder; the first of them has the number `first`. -/
def entries (first : Nat) : Growth α → List (Entry α)
  | leaf w => [Entry.leaf w]
  | split w feature threshold low high =>
    ⟨first + 1, (first + 1 + low.size : Nat), feature, threshold, w⟩ ::
      (low.entries (first + 1) ++ high.entries (first + 1 + low.size))

def arena (g : Growth α) : Arena α := (g.entries 0).toArray

def tree? (g : Growth α) : Except (TreeError α) (Tree α) := Tree.ofArena? g.arena

end Growth

end ClauseTriage
