import ClauseTriage.Stats

/-!
# Class weights

The weight of the two classes at a node of a tree: how much of the training data there was discarded
and how much kept.
-/
namespace ClauseTriage

/-- Weight of the discard class and of the keep class. -/
structure Weights (α : Type) where
  discard : α
  keep : α
  deriving DecidableEq, Repr

/-- A class: 0 is discard, 1 is keep. -/
abbrev Label := Nat

namespace Weights

variable {α : Type}

def toList (w : Weights α) : List α := [w.discard, w.keep]

/-- Exactly two weights make a pair. -/
def ofList? : List α → Option (Weights α)
  | [discard, keep] => some ⟨discard, keep⟩
  | _ => none

/-- The weight of a class. -/
def get? (w : Weights α) : Label → Option α
  | 0 => some w.discard
  | 1 => some w.keep
  | _ => none

def map {β : Type} (f : α → β) (w : Weights α) : Weights β := ⟨f w.discard, f w.keep⟩

variable [Scalar α]

open Scalar

/-- The heavier class; equal weights, and weights that cannot be compared, mean discard. -/
def heavier (w : Weights α) : Label := if lt w.discard w.keep then 1 else 0

def total (w : Weights α) : α := w.discard + w.keep

def impurity (w : Weights α) : α := gini w.toList

instance : BEq (Weights α) where
  beq v w := eq v.discard w.discard && eq v.keep w.keep

end Weights

end ClauseTriage
