import ClauseTriage.Tree.Weights

/-!
# Confusion matrices

How often each class was taken for each class.
-/
namespace ClauseTriage

/-- Counts of rows, by their class and then by the predicted one. -/
structure Confusion where
  ofDiscard : Weights Nat := ⟨0, 0⟩
  ofKeep : Weights Nat := ⟨0, 0⟩
  deriving DecidableEq, Repr

namespace Confusion

/-- The counts of one true class. -/
def row (m : Confusion) (truth : Label) : Weights Nat := if truth = 0 then m.ofDiscard else m.ofKeep

/-- How often a class was taken for another, or for itself. -/
def count (m : Confusion) (truth predicted : Label) : Nat :=
  if predicted = 0 then (m.row truth).discard else (m.row truth).keep

/-- Rows of a class. -/
def truthTotal (m : Confusion) (c : Label) : Nat := m.count c 0 + m.count c 1

/-- Rows taken for a class. -/
def predictedTotal (m : Confusion) (c : Label) : Nat := m.count 0 c + m.count 1 c

def total (m : Confusion) : Nat := m.truthTotal 0 + m.truthTotal 1

def correct (m : Confusion) : Nat := m.count 0 0 + m.count 1 1

/-- One more in one of two counts. -/
def bump (w : Weights Nat) (predicted : Label) : Weights Nat :=
  if predicted = 0 then { w with discard := w.discard + 1 } else { w with keep := w.keep + 1 }

/-- One more row. -/
def add (m : Confusion) (truth predicted : Label) : Confusion :=
  if truth = 0 then { m with ofDiscard := bump m.ofDiscard predicted }
  else { m with ofKeep := bump m.ofKeep predicted }

/-- The counts of two lists, over their common length; none where a label is not one of the two. -/
def ofLists? (truth predicted : List Label) : Option Confusion :=
  (truth.zip predicted).foldlM
    (fun m (t, p) => if t ≤ 1 ∧ p ≤ 1 then some (m.add t p) else none) {}

/-- A part of a total; zero where the total is zero. -/
def ratio {α : Type} [Scalar α] (n total : Nat) : α :=
  if total = 0 then Scalar.zero else Scalar.ofNat n / Scalar.ofNat total

/-- The counts of one class as shares. -/
def shareRow (w : Weights Nat) : Weights Float := w.map fun n => ratio n (w.discard + w.keep)

/-- Each row divided by its total. -/
def normalized (m : Confusion) : List (Weights Float) := [shareRow m.ofDiscard, shareRow m.ofKeep]

end Confusion

end ClauseTriage
