import ClauseTriage.Proofs.Fit.Exhaustive
import ClauseTriage.Proofs.Fit.Trees

/-!
# Samples in another order

A tree does not depend on the order of its samples: they are counted, cut and parted alike, and so
the same random numbers are drawn at every node.
-/
namespace ClauseTriage

open ClauseTriage.Random

namespace Cart

variable {α : Type} {t : Training α} {samples others : List ℕ}

theorem counts?_perm (h : samples.Perm others) : counts? t samples = counts? t others := by
  apply Option.ext
  intro counts
  rw [counts?_eq_some_iff, counts?_eq_some_iff, tally_perm h]
  simp only [h.mem_iff]

variable [Scalar α]

/-- Samples in another order are parted alike, and each side is in another order. -/
theorem partition?_perm (h : samples.Perm others) {s : Split α} {low high : List ℕ}
    (hsides : partition? t s samples = some (low, high)) :
    ∃ low' high', partition? t s others = some (low', high') ∧ low.Perm low' ∧ high.Perm high' := by
  obtain ⟨hvalues, rfl, rfl⟩ := partition?_eq_some_iff.1 hsides
  have hvalues' : ∀ i ∈ others, ∃ v, t.value? s.feature i = some v :=
    fun i hi => hvalues i (h.mem_iff.2 hi)
  exact ⟨_, _, partition?_eq_some_iff.2 ⟨hvalues', rfl, rfl⟩, h.filter _, h.filter _⟩

variable [Placed α] {p : Params} {width depth : ℕ}

theorem featureSplits?_perm (hα : SameMidpoints α) (h : samples.Perm others) (minLeaf feature : ℕ) :
    featureSplits? t minLeaf samples feature = featureSplits? t minLeaf others feature := by
  apply Option.ext
  intro splits
  rw [featureSplits?_eq_some_iff hα, featureSplits?_eq_some_iff hα, cuts_perm hα h,
    Training.Known, Training.Known]
  simp only [h.mem_iff]

/-- The search ends with the same split, whatever the order of the samples. -/
theorem bestSplit?_perm (hα : SameMidpoints α) (h : samples.Perm others) (minLeaf : ℕ) (parent : α)
    (features : List ℕ) :
    bestSplit? t minLeaf samples parent features = bestSplit? t minLeaf others parent features := by
  have hsplits : featureSplits? t minLeaf samples = featureSplits? t minLeaf others :=
    funext (featureSplits?_perm hα h minLeaf)
  rw [bestSplit?, bestSplit?, hsplits]

/-- The same node grows, and the random numbers after it are the same. -/
theorem grow_perm (hα : SameMidpoints α) (h : samples.Perm others) (stream : Stream) :
    grow t p width depth samples stream = grow t p width depth others stream := by
  induction hn : samples.length using Nat.strong_induction_on
    generalizing depth samples others stream with
  | _ n ih =>
    rw [grow_eq, grow_eq, counts?_perm h]
    cases counts? t others with
    | none => rfl
    | some counts =>
      rw [Option.bind_some, Option.bind_some, bestSplit?_perm hα h]
      split
      · rfl
      · cases bestSplit? t p.minLeaf others (weigh counts : Weights α).impurity
            (candidates p.features width stream).1 with
        | none => rfl
        | some best =>
          cases best with
          | none => rfl
          | some s =>
            simp only [Option.bind_some]
            cases hsides : partition? t s samples with
            | none =>
              cases hsides' : partition? t s others with
              | none => rfl
              | some sides =>
                obtain ⟨_, _, hsome, -⟩ := partition?_perm h.symm hsides'
                rw [hsides] at hsome
                cases hsome
            | some sides =>
              obtain ⟨low, high, hsides', hlow, hhigh⟩ := partition?_perm h hsides
              rw [hsides', Option.bind_some, Option.bind_some, hlow.length_eq, hhigh.length_eq,
                h.length_eq]
              split
              · rename_i hshorter
                have hn : others.length = n := h.length_eq.symm.trans hn
                rw [ih _ (hn ▸ hlow.length_eq ▸ hshorter.1) hlow _ rfl]
                congr 1
                funext lowTree
                rw [ih _ (hn ▸ hhigh.length_eq ▸ hshorter.2) hhigh _ rfl]
              · rfl

theorem growth?_perm (hα : SameMidpoints α) (h : samples.Perm others) (stream : Stream) :
    growth? t p samples stream = growth? t p others stream := by
  simp only [growth?, counts?_perm h, grow_perm hα h]

end Cart

/-- A tree does not depend on the order of its samples: from the same random numbers the same tree
is fitted, entry by entry, or none from either order for the same reason. -/
theorem fitTree_perm (t : Cart.Training Float) (p : Cart.Params) {samples others : List ℕ}
    (h : samples.Perm others) (s : Stream) : fitTree t p samples s = fitTree t p others s := by
  rw [fitTree, fitTree, h.isEmpty_eq, Cart.growth?_perm Cart.sameMidpoints_float h]

/-- Equal values in another order, zeros of both signs among them, and a value that is no number. -/
theorem fitTree_perm_zeros :
    let t : Cart.Training Float := ⟨#[[0.0, 1.0], [-0.0, 0.0 / 0.0], [1.0, 1.0]], #[0, 1, 1]⟩
    [0, 1, 1, 2].Perm [1, 2, 0, 1] ∧
      ∃ tree, fitTree t { features := .squareRoot } [0, 1, 1, 2] (.ofSeed 7) = .ok tree ∧
        fitTree t { features := .squareRoot } [1, 2, 0, 1] (.ofSeed 7) = .ok tree := by
  intro t
  have hperm : [0, 1, 1, 2].Perm [1, 2, 0, 1] := by decide
  have hdata : t.Rectangular 2 := ⟨by simp [t], rfl, by simp [t]⟩
  have hsamples : ∀ i ∈ [0, 1, 1, 2], i < t.rows.size := by simp [t]
  obtain ⟨tree, hfit⟩ := exists_fitTree hdata (List.cons_ne_nil _ _) hsamples
    { features := .squareRoot } (.ofSeed 7)
  have hsame := fitTree_perm t { features := .squareRoot } hperm (.ofSeed 7)
  exact ⟨hperm, tree, hfit, hsame ▸ hfit⟩

end ClauseTriage
