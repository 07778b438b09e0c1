import ClauseTriage.Fit.Growth
import ClauseTriage.Random.Draw

/-!
# Growing trees

A node is split where the weighted Gini impurity of the two sides is least, as long as it is below
that of the node. Samples are row numbers and may repeat; a value that cannot be compared goes to
the high side.
-/
namespace ClauseTriage.Cart

open ClauseTriage.Random Scalar

variable {α : Type} [Scalar α]

/-- Which features are tried at a split. -/
inductive FeatureChoice where
  | all
  /-- A random subset as large as the square root of their number. -/
  | squareRoot
  deriving DecidableEq, Repr

structure Params where
  maxDepth : Option Nat := none
  /-- Least number of samples at a node that is split. -/
  minSplit : Nat := 2
  /-- Least number of samples on each side of a split. -/
  minLeaf : Nat := 1
  features : FeatureChoice := .all
  deriving DecidableEq, Repr

/-- Rows of values and their labels. -/
structure Training (α : Type) where
  rows : Array (List α)
  labels : Array Label

namespace Training

/-- The value of a feature in a row. -/
def value? (t : Training α) (feature sample : Nat) : Option α := do
  let row ← t.rows[sample]?
  row[feature]?

/-- The label of a row, if it is one of the two. -/
def label? (t : Training α) (sample : Nat) : Option Label := do
  let l ← t.labels[sample]?
  if l ≤ 1 then some l else none

end Training

/-- Adds a label to the counts of both. -/
def addLabel (counts : Weights Nat) (l : Label) : Weights Nat :=
  if l = 0 then { counts with discard := counts.discard + 1 }
  else { counts with keep := counts.keep + 1 }

def countLabels (labels : List Label) : Weights Nat := labels.foldl addLabel ⟨0, 0⟩

/-- Counts as numbers. -/
def weigh (counts : Weights Nat) : Weights α := counts.map ofNat

/-- A test of a feature, with the weighted impurity of its sides. -/
structure Split (α : Type) where
  feature : Nat
  threshold : α
  impurity : α
  deriving Repr

/-- Ascending, with what is not a number at the end. -/
def notAfter (a b : α) : Bool :=
  if isNaN a then isNaN b else isNaN b || le a b

/-- A threshold from `a` on and below `b`. -/
def midpoint (a b : α) : α :=
  let middle := a / ofNat 2 + b / ofNat 2
  if le b middle then a else middle

/-- Impurity of two sides, weighted by their numbers of samples. -/
def splitImpurity (low high : Weights Nat) : α :=
  let lowCount := low.discard + low.keep
  let highCount := high.discard + high.keep
  (ofNat lowCount * (weigh low : Weights α).impurity +
    ofNat highCount * (weigh high : Weights α).impurity) / ofNat (lowCount + highCount)

/-- The label counts on the high side. -/
def remaining (total low : Weights Nat) : Weights Nat :=
  ⟨total.discard - low.discard, total.keep - low.keep⟩

/-- The splits between neighbours of a sorted list whose values are finite and different, with
enough samples on both sides. `low` counts the labels before the list. -/
def boundaries (feature minLeaf : Nat) (total low : Weights Nat) :
    List (α × Label) → List (Split α)
  | (a, l) :: (b, m) :: rest =>
    let low := addLabel low l
    let high := remaining total low
    let later := boundaries feature minLeaf total low ((b, m) :: rest)
    if isFinite a && isFinite b && lt a b && minLeaf ≤ low.discard + low.keep &&
        minLeaf ≤ high.discard + high.keep then
      ⟨feature, midpoint a b, splitImpurity low high⟩ :: later
    else later
  | _ => []

/-- The splits of one feature, from small values to large ones. -/
def featureSplits? (t : Training α) (minLeaf : Nat) (samples : List Nat) (feature : Nat) :
    Option (List (Split α)) := do
  let entries ← samples.mapM fun s => do return (← t.value? feature s, ← t.label? s)
  let sorted := entries.mergeSort fun x y => notAfter x.1 y.1
  return boundaries feature (max 1 minLeaf) (countLabels (entries.map (·.2))) ⟨0, 0⟩ sorted

/-- Keeps the best split so far, the first of several; none is better than the parent at first. -/
def better (parent : α) (best : Option (Split α)) (s : Split α) : Option (Split α) :=
  let bound := match best with
    | none => parent
    | some b => b.impurity
  if lt s.impurity parent && lt s.impurity bound then some s else best

/-- The features to try, ascending. -/
def candidates (choice : FeatureChoice) (width : Nat) : Draw (List Nat) :=
  match choice with
  | .all => return List.range width
  | .squareRoot => do
    return (← sample width (min (max 1 width.sqrt) width)).mergeSort

/-- The best split of the samples over some features. -/
def bestSplit? (t : Training α) (minLeaf : Nat) (samples : List Nat) (parent : α)
    (features : List Nat) : Option (Option (Split α)) := do
  let splits ← features.mapM (featureSplits? t minLeaf samples)
  return splits.flatten.foldl (better parent) none

/-- Label counts of the samples. -/
def counts? (t : Training α) (samples : List Nat) : Option (Weights Nat) :=
  (samples.mapM t.label?).map countLabels

/-- Samples on the low and on the high side of a split. -/
def partition? (t : Training α) (s : Split α) (samples : List Nat) :
    Option (List Nat × List Nat) := do
  let marked ← samples.mapM fun i => do return (i, le (← t.value? s.feature i) s.threshold)
  return ((marked.filter (·.2)).map (·.1), (marked.filter (!·.2)).map (·.1))

/-- The parameters, or the samples themselves, forbid a split. -/
def stops (p : Params) (depth : Nat) (counts : Weights Nat) : Bool :=
  let n := counts.discard + counts.keep
  p.maxDepth.any (· ≤ depth) || n < p.minSplit || n < 2 * p.minLeaf ||
    Scalar.eq (weigh counts : Weights α).impurity zero

/-- Grows the node of some samples. A missing row, value or label ends the growth. -/
def grow (t : Training α) (p : Params) (width depth : Nat) (samples : List Nat) :
    StateT Stream Option (Growth α) := do
  let counts ← counts? t samples
  let weights : Weights α := weigh counts
  if stops (α := α) p depth counts then return .leaf weights
  let features ← fun s => some (candidates p.features width s)
  match ← bestSplit? t p.minLeaf samples weights.impurity features with
  | none => return .leaf weights
  | some s =>
    let (low, high) ← partition? t s samples
    if h : low.length < samples.length ∧ high.length < samples.length then
      let lowTree ← grow t p width (depth + 1) low
      let highTree ← grow t p width (depth + 1) high
      return .split weights s.feature s.threshold lowTree highTree
    else return .leaf weights
termination_by samples.length
decreasing_by
  · exact h.1
  · exact h.2

/-- The tree of some samples; the first row tells how many features there are. -/
def growth? (t : Training α) (p : Params) (samples : List Nat) (s : Stream) :
    Option (Growth α) := do
  let first ← t.rows[0]?
  if first.isEmpty then return .leaf (weigh (← counts? t samples))
  let (g, _) ← grow t p first.length 0 samples s
  return g

end ClauseTriage.Cart
