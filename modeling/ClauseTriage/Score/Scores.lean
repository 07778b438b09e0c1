import ClauseTriage.Score.Confusion

/-!
# Scores

Accuracy, and precision and recall averaged over the classes that occur among the truths or the
predictions. A ratio without a denominator counts as zero.
-/
namespace ClauseTriage

open Scalar

structure Scores (α : Type) where
  macroPrecision : α
  macroRecall : α
  accuracy : α
  deriving Repr

namespace Confusion

variable {α : Type} [Scalar α]

/-- Classes that occur. -/
def present (m : Confusion) : List Label :=
  [0, 1].filter fun c => 0 < m.truthTotal c || 0 < m.predictedTotal c

/-- Mean over the classes that occur. -/
def macroMean (m : Confusion) (score : Label → α) : α :=
  if m.present.isEmpty then zero
  else sum (m.present.map score) / ofNat m.present.length

def macroPrecision (m : Confusion) : α :=
  m.macroMean fun c => ratio (m.count c c) (m.predictedTotal c)

def macroRecall (m : Confusion) : α := m.macroMean fun c => ratio (m.count c c) (m.truthTotal c)

def accuracy (m : Confusion) : α := ratio m.correct m.total

def scores (m : Confusion) : Scores α := ⟨m.macroPrecision, m.macroRecall, m.accuracy⟩

end Confusion

namespace Scores

variable {α : Type} [Scalar α]

/-- What the feature search makes large. -/
def total (s : Scores α) : α := s.macroPrecision + s.macroRecall + s.accuracy

/-- Scores of predictions. -/
def ofLists? (truth predicted : List Label) : Option (Scores α) :=
  (Confusion.ofLists? truth predicted).map Confusion.scores

end Scores

end ClauseTriage
