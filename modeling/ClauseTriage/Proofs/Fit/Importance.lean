import ClauseTriage.Proofs.Fit.Sides
import ClauseTriage.Proofs.Tree.Importance

/-!
# Importances of fitted trees

A split is made where it lowers the impurity of its samples, and its branches count the samples that
the search counted on both sides of it. So in exact arithmetic every split of a fitted tree is
credited to its feature, and importances tell which features a tree tests.
-/
namespace ClauseTriage

open ClauseTriage.Random Scalar

namespace Cart

theorem separating_fraction : Separating ℚ := by
  intro a b _ _ hlt
  have hab : a < b := of_decide_eq_true hlt
  have hmiddle : a / 2 + b / 2 < b := by linarith
  have hthreshold : midpoint a b = a / 2 + b / 2 := if_neg fun h =>
    absurd (of_decide_eq_true h) (not_le.2 hmiddle)
  rw [hthreshold]
  exact ⟨decide_eq_true (by linarith), decide_eq_false (not_le.2 hmiddle)⟩

theorem total_weigh (w : Weights ℕ) :
    (weigh w : Weights ℚ).total = ((w.discard + w.keep : ℕ) : ℚ) := (Nat.cast_add _ _).symm

/-- The impurity of two sides, times the number of samples. -/
theorem splitImpurity_mul (low high : Weights ℕ) (hsome : 0 < low.discard + low.keep) :
    (splitImpurity low high : ℚ) *
        ((weigh low : Weights ℚ).total + (weigh high : Weights ℚ).total) =
      (weigh low : Weights ℚ).total * (weigh low : Weights ℚ).impurity +
        (weigh high : Weights ℚ).total * (weigh high : Weights ℚ).impurity := by
  have hne : ((low.discard + low.keep + (high.discard + high.keep) : ℕ) : ℚ) ≠ 0 := by
    exact_mod_cast (Nat.add_pos_left hsome _).ne'
  rw [total_weigh, total_weigh, ← Nat.cast_add]
  exact div_mul_cancel₀ _ hne

variable {t : Training ℚ} {p : Params} {width depth : ℕ} {samples : List ℕ}

/-- A split lowers impurity: the sides that the search scored are those that its branches count. -/
theorem Grown.lowers {w : Weights ℚ} {feature : ℕ} {threshold : ℚ} {low high : Growth ℚ}
    (h : Grown t p width depth samples (.split w feature threshold low high)) (k k' : ℕ) :
    (low.numbered k).weights.total * (low.numbered k).weights.impurity +
        (high.numbered k').weights.total * (high.numbered k').weights.impurity <
      w.total * w.impurity := by
  cases h with
  | @split _ _ lowSamples highSamples features counts s _ _ hcounts hgoes hfeatures hbest hsides
      hlow hhigh =>
    obtain ⟨hlabels, rfl⟩ := counts?_eq_some_iff.1 hcounts
    obtain ⟨-, hlower, -⟩ := bestSplit?_spec hbest
    obtain ⟨below, above, low', high', hat, hsides', hbelow, habove, hsome, -⟩ :=
      bestSplit?_sides separating_fraction hbest
    obtain ⟨rfl, rfl⟩ := Prod.mk.inj (Option.some.inj (hsides.symm.trans hsides'))
    have hscored : s.impurity = splitImpurity (t.tally lowSamples) (t.tally highSamples) := by
      rw [hat.impurity, tally_perm hbelow, tally_perm habove]
    have htotal : (weigh (t.tally samples) : Weights ℚ).total =
        (weigh (t.tally lowSamples) : Weights ℚ).total +
          (weigh (t.tally highSamples) : Weights ℚ).total := by
      rw [total_weigh, total_weigh, total_weigh, Training.tally_total hlabels,
        Training.tally_total hlow.label, Training.tally_total hhigh.label, ← length_sides hsides,
        Nat.cast_add]
    have hcount : 0 < (t.tally lowSamples).discard + (t.tally lowSamples).keep := by
      rw [Training.tally_total hlow.label]
      exact (le_max_left 1 _).trans hsome
    have hpos : 0 < (weigh (t.tally samples) : Weights ℚ).total := by
      rw [htotal, total_weigh, total_weigh, ← Nat.cast_add]
      exact Nat.cast_pos.2 (Nat.add_pos_left hcount _)
    rw [hlow.weights, hhigh.weights, ← splitImpurity_mul _ _ hcount, ← hscored, ← htotal, mul_comm]
    exact mul_lt_mul_of_pos_left (lt_fraction_iff.1 hlower) hpos

theorem Grown.feature_lt {w : Weights ℚ} {feature : ℕ} {threshold : ℚ} {low high : Growth ℚ}
    (h : Grown t p width depth samples (.split w feature threshold low high)) :
    feature < width := by
  cases h with
  | split hcounts hgoes hfeatures hbest hsides hlow hhigh =>
    exact hfeatures _ (bestSplit?_spec hbest).1

end Cart

open Cart

theorem Arena.weightedImpurity_of_shows {t : Arena ℚ} {n : Node ℚ} (h : n.Shows t) :
    t.weightedImpurity n.id = n.weights.total * n.weights.impurity := by
  obtain ⟨e, he, hweights⟩ := h.entry
  rw [weightedImpurity, he, hweights]

/-- A tree is fitted to samples when it is the arena of one that grows from them. -/
def Fitted {α : Type} [Scalar α] (t : Training α) (p : Params) (samples : List ℕ) (s : Stream)
    (tree : Tree α) : Prop :=
  samples ≠ [] ∧ ∃ g, growth? t p samples s = some g ∧ g.tree? = .ok tree

/-- Over doubles that is what fitting gives. -/
theorem fitTree_eq_ok_iff_fitted {t : Training Float} {p : Params} {samples : List ℕ} {s : Stream}
    {tree : Tree Float} : fitTree t p samples s = .ok tree ↔ Fitted t p samples s tree :=
  fitTree_eq_ok_iff

variable {t : Training ℚ} {p : Params} {samples : List ℕ} {s : Stream} {tree : Tree ℚ}
  {first : List ℚ}

/-- Every split of a fitted tree tests a value of the rows and lowers impurity. -/
theorem Fitted.lowers (h : Fitted t p samples s tree) (hfirst : t.rows[0]? = some first) {id : ℕ}
    {e : Entry ℚ} (he : tree.arena[id]? = some e) (hsplit : e.isLeaf = false) :
    e.feature.toNat < first.length ∧ 0 < tree.arena.decrease id e := by
  obtain ⟨-, g, hgrowth, htree⟩ := h
  obtain ⟨row, hrow, hgrown⟩ := grown_of_growth? separating_fraction hgrowth
  obtain rfl := Option.some.inj (hrow.symm.trans hfirst)
  obtain ⟨low, high, hn, hlow, hhigh⟩ := Tree.exists_split he hsplit
  obtain ⟨-, hshowsLow, hshowsHigh⟩ := tree.root_spans.2.of_mem hn
  rw [Growth.root_eq htree] at hn
  obtain ⟨g', depth, hnumbered, hbelow⟩ := hgrown.of_mem hn
  rw [Node.id] at hnumbered hbelow
  cases g' with
  | leaf w => cases hnumbered
  | split w f x lowTree highTree =>
    obtain ⟨-, rfl, rfl, rfl, rfl, rfl⟩ := Node.split.inj hnumbered
    refine ⟨hbelow.feature_lt, ?_⟩
    have hnode : tree.arena.weightedImpurity id = e.weights.total * e.weights.impurity := by
      rw [Arena.weightedImpurity, he]
    have hlowers := hbelow.lowers (id + 1) (id + 1 + lowTree.size)
    rw [Arena.decrease, ← hlow, ← hhigh, hnode, Arena.weightedImpurity_of_shows hshowsLow,
      Arena.weightedImpurity_of_shows hshowsHigh, sub_sub]
    exact sub_pos.2 hlowers

/-- In exact arithmetic the importances of a tree are as many as asked for, none is negative, and
they sum to one or are all zero. Those of a fitted tree with a split, one for each value of a row,
sum to one, and a feature's is positive exactly when a split tests it. -/
theorem importances_tell_tested_features :
    (∀ (tree : Tree ℚ) (width : ℕ), (tree.importances width).length = width ∧
      (∀ x ∈ tree.importances width, 0 ≤ x) ∧
      ((tree.importances width).sum = 1 ∨ ∀ x ∈ tree.importances width, x = 0)) ∧
    ∀ (t : Training ℚ) (p : Params) (samples : List ℕ) (s : Stream) (tree : Tree ℚ)
      (first : List ℚ), t.rows[0]? = some first → Fitted t p samples s tree → tree.features ≠ [] →
        (tree.importances first.length).sum = 1 ∧
        ∀ f, (∃ x, (tree.importances first.length)[f]? = some x ∧ 0 < x) ↔ f ∈ tree.features := by
  constructor
  · exact fun tree width => ⟨tree.length_importances width, tree.importances_nonneg width,
      tree.sum_importances width⟩
  · intro t p samples s tree first hfirst hfitted hsome
    exact Tree.importances_of_lowering (fun id e => hfitted.lowers hfirst) hsome

/-- Four rows of three values, the last of which is the same in all. -/
def fourRows : Training ℚ := ⟨#[[0, 0, 5], [0, 1, 5], [1, 0, 5], [1, 1, 5]], #[0, 1, 1, 1]⟩

/-- Two of the three features are tested. -/
theorem importances_tell_tested_features_four :
    ∃ tree : Tree ℚ, Fitted fourRows {} [0, 1, 2, 3] (.ofSeed 7) tree ∧ tree.features = [0, 1] ∧
      tree.importances 3 = [1 / 3, 2 / 3, 0] ∧ (tree.importances 3).sum = 1 ∧
      ∀ f : ℕ, (∃ x : ℚ, (tree.importances 3)[f]? = some x ∧ 0 < x) ↔ f ∈ [0, 1] := by
  have hgrown : (growth? fourRows {} [0, 1, 2, 3] (.ofSeed 7)).map
      (fun g => (g.arena.toList.filterMap fun e => if e.isLeaf then none else some e.feature.toNat,
        shares (g.arena.credits 3))) = some ([0, 1], [1 / 3, 2 / 3, 0]) := by cbv
  obtain ⟨g, hgrowth, hpair⟩ := Option.map_eq_some_iff.1 hgrown
  obtain ⟨hfeatures, hshares⟩ := Prod.mk.inj hpair
  obtain ⟨tree, htree⟩ := Growth.exists_tree (g.allTests_true.imp fun _ _ _ => rfl)
  rw [← Growth.arena_eq htree] at hfeatures hshares
  have hfitted : Fitted fourRows {} [0, 1, 2, 3] (.ofSeed 7) tree :=
    ⟨List.cons_ne_nil _ _, g, hgrowth, htree⟩
  have htests : tree.features = [0, 1] := hfeatures
  obtain ⟨hsum, htested⟩ := importances_tell_tested_features.2 fourRows {} [0, 1, 2, 3] (.ofSeed 7)
    tree [0, 0, 5] rfl hfitted (htests ▸ List.cons_ne_nil _ _)
  exact ⟨tree, hfitted, htests, hshares, hsum, fun f => htests ▸ htested f⟩

end ClauseTriage
