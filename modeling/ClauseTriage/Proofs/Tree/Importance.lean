import ClauseTriage.Tree.Importance
import ClauseTriage.Proofs.Places
import ClauseTriage.Proofs.Tree.Unfolding

/-!
# Importances in exact arithmetic

With fractions the importances of a tree are the shares of its features in what all splits lower
impurity by. They are not negative, and they sum to one unless no split lowers it.
-/
namespace ClauseTriage

open Scalar

section Shares

variable {x y : ℚ} {xs : List ℚ}

/-- Fractions are compared as such. -/
theorem lt_fraction_iff : lt x y = true ↔ x < y := decide_eq_true_iff

theorem clampBelow_eq_max (x : ℚ) : clampBelow x = max 0 x := by
  have hzero : (zero : ℚ) = 0 := rfl
  rw [clampBelow, hzero]
  by_cases h : 0 < x
  · rw [if_pos (lt_fraction_iff.2 h), max_eq_right h.le]
  · rw [if_neg (h ∘ lt_fraction_iff.1), max_eq_left (not_lt.1 h)]

theorem length_shares (xs : List ℚ) : (shares xs).length = xs.length := by
  rw [shares]
  split
  · exact List.length_map _
  · rfl

/-- With a positive total, shares are parts of it. -/
theorem shares_of_pos (h : 0 < xs.sum) : shares xs = xs.map (· / xs.sum) := by
  rw [shares, sum_eq_listSum]
  exact if_pos (lt_fraction_iff.2 h)

theorem shares_of_not_pos (h : ¬0 < xs.sum) : shares xs = xs := by
  rw [shares, sum_eq_listSum]
  exact if_neg (h ∘ lt_fraction_iff.1)

theorem sum_shares_of_pos (h : 0 < xs.sum) : (shares xs).sum = 1 := by
  simp only [shares_of_pos h, div_eq_mul_inv]
  rw [List.sum_map_mul_right, List.map_id', mul_inv_cancel₀ h.ne']

theorem shares_nonneg (h : ∀ x ∈ xs, 0 ≤ x) : ∀ x ∈ shares xs, 0 ≤ x := by
  by_cases hpos : 0 < xs.sum
  · rw [shares_of_pos hpos, List.forall_mem_map]
    exact fun x hx => div_nonneg (h x hx) hpos.le
  · rwa [shares_of_not_pos hpos]

/-- Without a positive total, numbers that are not negative are all zero. -/
theorem eq_zero_of_not_pos (h : ∀ x ∈ xs, 0 ≤ x) (hpos : ¬0 < xs.sum) : ∀ x ∈ xs, x = 0 := by
  have hsum : xs.sum = 0 := le_antisymm (not_lt.1 hpos) (List.sum_nonneg h)
  intro x hx
  exact le_antisymm (hsum ▸ List.single_le_sum h x hx) (h x hx)

end Shares

namespace Arena

variable (t : Arena ℚ) (f : ℕ)

/-- What a node lowers impurity by if it is a split on a feature. -/
def lowered (node : Entry ℚ × ℕ) : ℚ :=
  if node.1.isLeaf = false ∧ node.1.feature.toNat = f then max 0 (t.decrease node.2 node.1) else 0

/-- What all splits on a feature lower impurity by. -/
def credit : ℚ := (t.toList.zipIdx.map (t.lowered f)).sum

variable {t f}

theorem lowered_nonneg (node : Entry ℚ × ℕ) : 0 ≤ t.lowered f node := by
  rw [lowered]
  split
  · exact le_max_left _ _
  · exact le_rfl

theorem credit_nonneg (t : Arena ℚ) (f : ℕ) : 0 ≤ t.credit f :=
  List.sum_nonneg (List.forall_mem_map.2 fun node _ => lowered_nonneg node)

/-- A split that lowers impurity is credited to its feature. -/
theorem credit_pos {id : ℕ} {e : Entry ℚ} (he : t[id]? = some e) (hsplit : e.isLeaf = false)
    (hdecrease : 0 < t.decrease id e) : 0 < t.credit e.feature.toNat := by
  have hmem : (e, id) ∈ t.toList.zipIdx := by
    rw [List.mem_zipIdx_iff_getElem?, Array.getElem?_toList, he]
  have hlowered : t.lowered e.feature.toNat (e, id) = t.decrease id e := by
    rw [lowered, if_pos ⟨hsplit, rfl⟩, max_eq_right hdecrease.le]
  have hle : t.lowered e.feature.toNat (e, id) ≤ t.credit e.feature.toNat :=
    List.single_le_sum (List.forall_mem_map.2 fun node _ => lowered_nonneg node) _
      (List.mem_map_of_mem hmem)
  exact hdecrease.trans_le (hlowered ▸ hle)

/-- A feature that no split tests has no credit. -/
theorem exists_of_credit_pos (h : 0 < t.credit f) :
    ∃ e ∈ t, e.isLeaf = false ∧ e.feature.toNat = f := by
  by_contra hnone
  have hzero : ∀ x ∈ t.toList.zipIdx.map (t.lowered f), x = 0 := by
    refine List.forall_mem_map.2 fun node hnode => if_neg fun hsplit => hnone ?_
    exact ⟨node.1, Array.mem_toList_iff.1 (List.fst_mem_of_mem_zipIdx hnode), hsplit⟩
  rw [credit, List.sum_eq_zero hzero] at h
  exact h.false

/-- Credits are given node by node, each to one place. -/
theorem getElem?_foldl_credits (nodes : List (Entry ℚ × ℕ)) (init : List ℚ) :
    (nodes.foldl (fun credits (e, id) => if e.isLeaf then credits
      else credits.modify e.feature.toNat (· + clampBelow (t.decrease id e))) init)[f]? =
        init[f]?.map (· + (nodes.map (t.lowered f)).sum) := by
  induction nodes generalizing init with
  | nil => simp
  | cons node nodes ih =>
    obtain ⟨e, id⟩ := node
    rw [List.foldl_cons, ih, List.map_cons, List.sum_cons, lowered]
    dsimp only
    cases e.isLeaf with
    | true => simp
    | false =>
      rw [if_neg Bool.false_ne_true, List.getElem?_modify, clampBelow_eq_max]
      by_cases hf : e.feature.toNat = f
      · simp [hf, Function.comp_def, add_assoc]
      · simp [hf]

theorem credits_eq (t : Arena ℚ) (width : ℕ) :
    t.credits width = (List.range width).map t.credit := by
  have hzero : (zero : ℚ) = 0 := rfl
  refine List.ext_getElem? fun f => ?_
  rw [credits, getElem?_foldl_credits, List.getElem?_map]
  rcases lt_or_ge f width with hf | hf
  · rw [List.getElem?_range hf, List.getElem?_replicate, if_pos hf, hzero, Option.map_some,
      Option.map_some, zero_add]
    rfl
  · rw [List.getElem?_eq_none (by simpa using hf), List.getElem?_eq_none (by simpa using hf)]
    rfl

end Arena

namespace Tree

variable (t : Tree ℚ) (width : ℕ)

theorem length_importances : (t.importances width).length = width := by
  rw [importances, length_shares, Arena.credits_eq, List.length_map, List.length_range]

theorem credits_nonneg : ∀ x ∈ t.arena.credits width, 0 ≤ x := by
  rw [Arena.credits_eq, List.forall_mem_map]
  exact fun f _ => Arena.credit_nonneg _ f

theorem importances_nonneg : ∀ x ∈ t.importances width, 0 ≤ x :=
  shares_nonneg (t.credits_nonneg width)

theorem sum_importances :
    (t.importances width).sum = 1 ∨ ∀ x ∈ t.importances width, x = 0 := by
  by_cases hpos : 0 < (t.arena.credits width).sum
  · exact .inl (sum_shares_of_pos hpos)
  · rw [importances, shares_of_not_pos hpos]
    exact .inr (eq_zero_of_not_pos (t.credits_nonneg width) hpos)

variable {t width}

/-- Where every split lowers impurity and tests one of the features, importances tell which features
are tested. -/
theorem importances_of_lowering
    (hsplits : ∀ (id : ℕ) (e : Entry ℚ), t.arena[id]? = some e → e.isLeaf = false →
      e.feature.toNat < width ∧ 0 < t.arena.decrease id e) (hsome : t.features ≠ []) :
    (t.importances width).sum = 1 ∧
      ∀ f, (∃ x, (t.importances width)[f]? = some x ∧ 0 < x) ↔ f ∈ t.features := by
  have hcredit : ∀ f, f < width ∧ 0 < t.arena.credit f ↔ f ∈ t.features := by
    intro f
    rw [mem_features_iff]
    constructor
    · exact fun h => Arena.exists_of_credit_pos h.2
    · rintro ⟨e, he, hsplit, rfl⟩
      obtain ⟨id, hid⟩ := Array.mem_iff_getElem?.1 he
      obtain ⟨hwidth, hdecrease⟩ := hsplits id e hid hsplit
      exact ⟨hwidth, Arena.credit_pos hid hsplit hdecrease⟩
  have hpos : 0 < (t.arena.credits width).sum := by
    obtain ⟨f, hf⟩ := List.exists_mem_of_ne_nil _ hsome
    obtain ⟨hwidth, hlowered⟩ := (hcredit f).2 hf
    refine hlowered.trans_le (List.single_le_sum (t.credits_nonneg width) _ ?_)
    rw [Arena.credits_eq]
    exact List.mem_map_of_mem (List.mem_range.2 hwidth)
  refine ⟨sum_shares_of_pos hpos, fun f => ?_⟩
  have hentry : (t.arena.credits width)[f]? = (List.range width)[f]?.map t.arena.credit := by
    rw [Arena.credits_eq, List.getElem?_map]
  rw [← hcredit, importances, shares_of_pos hpos, List.getElem?_map, hentry]
  rcases lt_or_ge f width with hf | hf
  · rw [List.getElem?_range hf]
    simp [hf, div_pos_iff_of_pos_right hpos]
  · rw [List.getElem?_eq_none (by simpa using hf)]
    simp [not_lt.2 hf]

end Tree

end ClauseTriage
