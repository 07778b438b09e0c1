import ClauseTriage.Proofs.Double.Places
import ClauseTriage.Proofs.Fit.Scan

/-!
# The search for a split is exhaustive

One pass over the samples by value, with counts that run along, finds the same split as counting
both sides of every cut afresh and taking the first one of least impurity.
-/
namespace ClauseTriage.Cart

open Scalar

section Search

variable {α : Type} [Scalar α] [Placed α]

/-- The first split of least impurity, among those that lower the impurity of the parent. -/
def firstLeast (parent : α) (splits : List (Split α)) : Option (Split α) :=
  (splits.filter fun s => lt s.impurity parent).argmin fun s => Placed.place s.impurity

/-- All cuts between neighbouring values of the features, one feature after the other, and of those
with enough samples on both sides the first one of least impurity. -/
def exhaustive (t : Training α) (minLeaf : ℕ) (samples : List ℕ) (parent : α)
    (features : List ℕ) : Option (Split α) :=
  firstLeast parent (features.flatMap (cuts t minLeaf samples))

theorem firstLeast_concat (parent : α) (splits : List (Split α)) (s : Split α) :
    firstLeast parent (splits ++ [s]) = better parent (firstLeast parent splits) s := by
  rw [firstLeast, List.filter_append, List.filter_singleton]
  cases hlt : lt s.impurity parent with
  | false => simp [better, firstLeast, hlt]
  | true =>
    rw [Bool.cond_true, List.argmin_concat, ← firstLeast]
    cases hbest : firstLeast parent splits with
    | none => simp [better, hlt]
    | some b =>
      have hb : lt b.impurity parent = true :=
        (List.mem_filter.1 (List.argmin_mem (hbest : b ∈ firstLeast parent splits))).2
      have hplaces : lt s.impurity b.impurity = true ↔
          Placed.place s.impurity < Placed.place b.impurity := by
        rw [Placed.lt_iff, (Placed.lt_iff.1 hlt).1, (Placed.lt_iff.1 hb).1]
        simp
      simp only [better, hlt, hplaces, Bool.true_and]

/-- Keeping the best split so far ends with the first one of least impurity. -/
theorem foldl_better_eq_firstLeast (parent : α) (splits : List (Split α)) :
    splits.foldl (better parent) none = firstLeast parent splits := by
  induction splits using List.reverseRecOn with
  | nil => rfl
  | append_singleton splits s ih =>
    rw [List.foldl_append, ih, List.foldl_cons, List.foldl_nil, firstLeast_concat]

theorem bestSplit?_of_known (hα : SameMidpoints α) {t : Training α} {samples features : List ℕ}
    (h : ∀ f ∈ features, t.Known f samples) (minLeaf : ℕ) (parent : α) :
    bestSplit? t minLeaf samples parent features =
      some (exhaustive t minLeaf samples parent features) := by
  have hsplits : features.mapM (featureSplits? t minLeaf samples) =
      some (features.map (cuts t minLeaf samples)) :=
    mapM_eq_some_map fun f hf => featureSplits?_eq_cuts hα (h f hf) minLeaf
  rw [bestSplit?, hsplits, exhaustive, List.flatMap_def, ← foldl_better_eq_firstLeast]
  rfl

end Search

theorem sameMidpoints_float : SameMidpoints Float := by
  intro a a' b b' ha hb hlt ha' hb'
  exact Double.midpoint_congr ha hb (of_decide_eq_true hlt) ha' hb'

/-- Where each sample has a label and a value of the features to try, the search for a split gives
what counting every cut afresh gives: of the cuts between neighbouring finite values that leave
enough samples on both sides and lower the impurity, the first one of least impurity. The values may
be any numbers or none, and samples may repeat. -/
theorem bestSplit?_eq_exhaustive {t : Training Float} {samples features : List ℕ}
    (h : ∀ f ∈ features, t.Known f samples) (minLeaf : ℕ) (parent : Float) :
    bestSplit? t minLeaf samples parent features =
      some (exhaustive t minLeaf samples parent features) :=
  bestSplit?_of_known sameMidpoints_float h minLeaf parent

/-- Zeros of both signs, a sample that repeats, and values that are not finite. -/
theorem bestSplit?_eq_exhaustive_zeros :
    let t : Training Float :=
      ⟨#[[0.0], [-0.0], [0.0 / 0.0], [1.0], [1.0 / 0.0]], #[0, 0, 1, 1, 1]⟩
    (∀ f ∈ [0], t.Known f [3, 0, 1, 0, 2, 4]) ∧
      (bestSplit? t 1 [3, 0, 1, 0, 2, 4] 0.5 [0]).map (·.map (·.threshold)) = some (some 0.5) := by
  intro t
  have hknown : ∀ f ∈ [0], t.Known f [3, 0, 1, 0, 2, 4] := by
    simp [t, Training.Known, Training.label?, Training.value?]
  refine ⟨hknown, ?_⟩
  rw [bestSplit?_eq_exhaustive hknown 1 0.5]
  decide +kernel

end ClauseTriage.Cart
