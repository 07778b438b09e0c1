import ClauseTriage.Proofs.Double.Shares
import ClauseTriage.Proofs.Fit.Trees
import ClauseTriage.Proofs.Groups
import ClauseTriage.Proofs.Tree.Path

/-!
# What the nodes of a fitted tree count

The samples that a node was grown from are those whose rows pass it. So its weights count their
labels, and what holds of growing samples holds of passing ones.
-/
namespace ClauseTriage

open ClauseTriage.Random Cart

namespace Cart

variable {α : Type}

/-- The values of a sample; none where it is not a row. -/
def Training.row (t : Training α) (sample : ℕ) : List α := t.rows[sample]?.getD []

theorem Training.value?_eq (t : Training α) (feature sample : ℕ) :
    t.value? feature sample = (t.row sample)[feature]? := by
  rw [value?, row]
  cases t.rows[sample]? <;> rfl

/-- The labels of some samples are those of both sides together. -/
theorem tally_sides (t : Training α) (samples : List ℕ) (low : ℕ → Bool) :
    t.tally samples = ⟨(t.tally (samples.filter low)).discard +
        (t.tally (samples.filter fun i => !low i)).discard,
      (t.tally (samples.filter low)).keep + (t.tally (samples.filter fun i => !low i)).keep⟩ := by
  simp only [Training.tally, Weights.mk.injEq]
  constructor <;> exact List.countP_eq_countP_filter_add _ _ low

variable [Scalar α]

/-- The samples whose rows pass a node. -/
def passing (t : Training α) (samples : List ℕ) (n : Node α) (id : ℕ) : List ℕ :=
  samples.filter fun i => decide (id ∈ n.path (t.row i))

variable {t : Training α} {p : Params} {width depth : ℕ} {samples : List ℕ} {g : Growth α}

theorem passing_root (n : Node α) : passing t samples n n.id = samples :=
  List.filter_eq_self.2 fun i _ => decide_eq_true (n.id_mem_path (t.row i))

theorem passing_first (g : Growth α) (first : ℕ) :
    passing t samples (g.numbered first) first = samples := by
  have hroot : passing t samples (g.numbered first) (g.numbered first).id = samples :=
    passing_root _
  rwa [Growth.id_numbered] at hroot

/-- What passes a node below another one is what passes both. -/
theorem passing_below {n m k : Node α} (hn : (n.preorder.map Node.id).Nodup) (hm : m ∈ n.preorder)
    (hk : k ∈ m.preorder) :
    passing t samples n k.id = passing t (passing t samples n m.id) m k.id := by
  rw [passing, passing, passing, List.filter_filter]
  apply List.filter_congr
  intro i _
  rw [Bool.eq_iff_iff, Bool.and_eq_true, decide_eq_true_iff, decide_eq_true_iff, decide_eq_true_iff,
    Node.mem_path_iff hn hm hk, and_comm]

theorem goesLow_iff {feature : ℕ} {threshold : α} {i : ℕ} :
    goesLow t feature threshold i = true ↔
      ∃ v, (t.row i)[feature]? = some v ∧ Scalar.le v threshold = true := by
  rw [goesLow, t.value?_eq]
  exact Option.any_eq_true _ _

section Branches

variable {id feature : ℕ} {w : Weights α} {threshold : α} {low high m : Node α}

/-- What passes a node of the low branch is what is on the low side and passes it there. -/
theorem passing_low
    (hn : ((Node.split id w feature threshold low high).preorder.map Node.id).Nodup)
    (hm : m ∈ low.preorder) :
    passing t samples (.split id w feature threshold low high) m.id =
      passing t (samples.filter (goesLow t feature threshold)) low m.id := by
  rw [passing, passing, List.filter_filter]
  apply List.filter_congr
  intro i _
  rw [Bool.eq_iff_iff, Bool.and_eq_true, decide_eq_true_iff, decide_eq_true_iff, goesLow_iff,
    Node.mem_path_low hn hm, and_comm]

theorem passing_high
    (hn : ((Node.split id w feature threshold low high).preorder.map Node.id).Nodup)
    (hm : m ∈ high.preorder) (hvalues : ∀ i ∈ samples, ∃ v, t.value? feature i = some v) :
    passing t samples (.split id w feature threshold low high) m.id =
      passing t (samples.filter fun i => !goesLow t feature threshold i) high m.id := by
  rw [passing, passing, List.filter_filter]
  apply List.filter_congr
  intro i hi
  obtain ⟨v, hv⟩ := hvalues i hi
  have hrow : (t.row i)[feature]? = some v := (t.value?_eq feature i).symm.trans hv
  rw [Bool.eq_iff_iff, Bool.and_eq_true, decide_eq_true_iff, decide_eq_true_iff,
    Node.mem_path_high hn hm, and_comm]
  simp [goesLow, hv, hrow]

end Branches

/-- Every node of a grown tree is grown from the samples that pass it. -/
theorem Grown.of_mem (h : Grown t p width depth samples g) {first : ℕ} {n : Node α}
    (hn : n ∈ (g.numbered first).preorder) :
    ∃ g' depth', n = g'.numbered n.id ∧
      Grown t p width depth' (passing t samples (g.numbered first) n.id) g' := by
  induction h generalizing first with
  | @leaf depth samples counts hcounts hends =>
    obtain rfl := List.mem_singleton.1 hn
    refine ⟨.leaf (weigh counts), depth, rfl, ?_⟩
    rw [Node.id, passing_first]
    exact .leaf hcounts hends
  | @split depth samples low high features counts s lowTree highTree hcounts hgoes hfeatures hbest
      hsides hlow hhigh ihl ihh =>
    rcases List.mem_cons.1 hn with rfl | hbranch
    · refine ⟨.split (weigh counts) s.feature s.threshold lowTree highTree, depth, rfl, ?_⟩
      rw [Node.id, passing_first]
      exact .split hcounts hgoes hfeatures hbest hsides hlow hhigh
    · have hnodup := Growth.nodup_numbered
        (.split (weigh counts) s.feature s.threshold lowTree highTree) first
      obtain ⟨hvalues, rfl, rfl⟩ := partition?_eq_some_iff.1 hsides
      rcases List.mem_append.1 hbranch with hbranch | hbranch
      · obtain ⟨g', depth', hnumbered, hgrown⟩ := ihl hbranch
        refine ⟨g', depth', hnumbered, ?_⟩
        rwa [Growth.numbered, passing_low hnodup hbranch]
      · obtain ⟨g', depth', hnumbered, hgrown⟩ := ihh hbranch
        refine ⟨g', depth', hnumbered, ?_⟩
        rwa [Growth.numbered, passing_high hnodup hbranch hvalues]

theorem Grown.label (h : Grown t p width depth samples g) :
    ∀ i ∈ samples, ∃ l, t.label? i = some l := by
  cases h with
  | leaf hcounts hends => exact (counts?_eq_some_iff.1 hcounts).1
  | split hcounts hgoes hfeatures hbest hsides hlow hhigh => exact (counts?_eq_some_iff.1 hcounts).1

theorem Grown.weights (h : Grown t p width depth samples g) (first : ℕ) :
    (g.numbered first).weights = weigh (t.tally samples) := by
  cases h with
  | leaf hcounts hends =>
    obtain ⟨-, rfl⟩ := counts?_eq_some_iff.1 hcounts
    rfl
  | split hcounts hgoes hfeatures hbest hsides hlow hhigh =>
    obtain ⟨-, rfl⟩ := counts?_eq_some_iff.1 hcounts
    rfl

/-- What forbids no split. -/
theorem of_stops_eq_false {counts : Weights ℕ} (h : stops (α := α) p depth counts = false) :
    (∀ limit, p.maxDepth = some limit → depth < limit) ∧
      max p.minSplit (2 * p.minLeaf) ≤ counts.discard + counts.keep ∧
      Scalar.eq (weigh counts : Weights α).impurity Scalar.zero = false := by
  simp only [stops, Bool.or_eq_false_iff, decide_eq_false_iff_not, not_lt] at h
  obtain ⟨⟨⟨hdepth, hsplit⟩, hleaf⟩, himpurity⟩ := h
  refine ⟨fun limit hlimit => ?_, max_le hsplit hleaf, himpurity⟩
  rw [hlimit, Option.any_some, decide_eq_false_iff_not] at hdepth
  exact not_le.1 hdepth

/-- No leaf of a grown tree is below the greatest depth. -/
theorem Grown.height_le (h : Grown t p width depth samples g) {limit : ℕ}
    (hlimit : p.maxDepth = some limit) (hdepth : depth ≤ limit) (first : ℕ) :
    depth + (g.numbered first).height ≤ limit := by
  induction h generalizing first with
  | leaf hcounts hends => exact hdepth
  | @split depth samples low high features counts s lowTree highTree hcounts hgoes hfeatures hbest
      hsides hlow hhigh ihl ihh =>
    have hbelow := (of_stops_eq_false hgoes).1 limit hlimit
    have hl := ihl hbelow (first + 1)
    have hh := ihh hbelow (first + 1 + lowTree.size)
    rw [Growth.numbered, Node.height]
    omega

/-- Every sample reaches a leaf of the tree that was grown from it. -/
theorem Grown.exists_leafFor? (h : Grown t p width depth samples g) (first : ℕ) :
    ∀ i ∈ samples, ∃ r, (g.numbered first).leafFor? (t.row i) = some r := by
  induction h generalizing first with
  | leaf hcounts hends => exact fun i _ => ⟨_, rfl⟩
  | @split depth samples low high features counts s lowTree highTree hcounts hgoes hfeatures hbest
      hsides hlow hhigh ihl ihh =>
    intro i hi
    obtain ⟨hvalues, rfl, rfl⟩ := partition?_eq_some_iff.1 hsides
    obtain ⟨v, hv⟩ := hvalues i hi
    rw [t.value?_eq] at hv
    rw [Growth.numbered, Node.leafFor?, hv]
    dsimp only
    split
    · rename_i hle
      exact ihl _ i (List.mem_filter.2 ⟨hi, goesLow_iff.2 ⟨v, hv, hle⟩⟩)
    · rename_i hle
      refine ihh _ i (List.mem_filter.2 ⟨hi, ?_⟩)
      simp [goesLow, t.value?_eq, hv, hle]

theorem Grown.of_split {w : Weights α} {feature : ℕ} {threshold : α} {low high : Growth α}
    (h : Grown t p width depth samples (.split w feature threshold low high)) :
    (∀ i ∈ samples, ∃ v, t.value? feature i = some v) ∧
      max p.minSplit (2 * p.minLeaf) ≤ samples.length := by
  cases h with
  | split hcounts hgoes hfeatures hbest hsides hlow hhigh =>
    obtain ⟨hlabels, rfl⟩ := counts?_eq_some_iff.1 hcounts
    have hmany := (of_stops_eq_false hgoes).2.1
    rw [Training.tally_total hlabels] at hmany
    exact ⟨(partition?_eq_some_iff.1 hsides).1, hmany⟩

/-- What passes a split passes one of its branches: which one, its test tells. -/
theorem Grown.passing_branches {first id feature : ℕ} {w : Weights α} {threshold : α}
    {low high : Node α} (h : Grown t p width depth samples g)
    (hn : .split id w feature threshold low high ∈ (g.numbered first).preorder) :
    passing t samples (g.numbered first) low.id =
        (passing t samples (g.numbered first) id).filter (goesLow t feature threshold) ∧
      passing t samples (g.numbered first) high.id =
        (passing t samples (g.numbered first) id).filter fun i =>
          !goesLow t feature threshold i := by
  obtain ⟨g', depth', hnumbered, hgrown⟩ := h.of_mem hn
  rw [Node.id] at hnumbered hgrown
  have hnodup := g.nodup_numbered first
  have hnodup' := g'.nodup_numbered id
  rw [← hnumbered] at hnodup'
  have hlow : low ∈ (Node.split id w feature threshold low high).preorder :=
    List.mem_cons_of_mem _ (List.mem_append_left _ low.self_mem_preorder)
  have hhigh : high ∈ (Node.split id w feature threshold low high).preorder :=
    List.mem_cons_of_mem _ (List.mem_append_right _ high.self_mem_preorder)
  have hvalues : ∀ i ∈ passing t samples (g.numbered first) id,
      ∃ v, t.value? feature i = some v := by
    cases g' with
    | leaf w' => cases hnumbered
    | split w' f x lowTree highTree =>
      obtain ⟨-, rfl, rfl, rfl, rfl, rfl⟩ := Node.split.inj hnumbered
      exact hgrown.of_split.1
  rw [passing_below hnodup hn hlow, passing_below hnodup hn hhigh, Node.id,
    passing_low hnodup' low.self_mem_preorder,
    passing_high hnodup' high.self_mem_preorder hvalues, passing_root, passing_root]
  exact ⟨rfl, rfl⟩

/-- A split has samples of both labels. -/
theorem Grown.mixed {t : Training Float} {samples : List ℕ} {w : Weights Float} {feature : ℕ}
    {threshold : Float} {low high : Growth Float}
    (h : Grown t p width depth samples (.split w feature threshold low high)) :
    0 < (t.tally samples).discard ∧ 0 < (t.tally samples).keep := by
  cases h with
  | split hcounts hgoes hfeatures hbest hsides hlow hhigh =>
    obtain ⟨-, rfl⟩ := counts?_eq_some_iff.1 hcounts
    obtain ⟨-, -, himpure⟩ := of_stops_eq_false hgoes
    have hlower := (bestSplit?_spec hbest).2.1
    have hnot : ¬Double.Pure (weigh (t.tally samples) : Weights Float).impurity := by
      rintro (hzero | hnan)
      · rw [himpure] at hzero
        cases hzero
      · rw [Double.lt_of_isNaN hnan] at hlower
        cases hlower
    have himpurity : (weigh (t.tally samples) : Weights Float).impurity =
        gini [Float.ofNat (t.tally samples).discard, Float.ofNat (t.tally samples).keep] := rfl
    constructor <;> apply Nat.pos_of_ne_zero <;> intro hzero <;> apply hnot <;>
      rw [himpurity, hzero]
    · exact (Double.pure_gini _).2
    · exact (Double.pure_gini _).1

end Cart

/-- A tree counts samples: each node the labels of those that pass it. -/
structure Tree.Counts (tree : Tree Float) (t : Training Float) (samples : List ℕ) : Prop where
  weights : ∀ (id : ℕ) (e : Entry Float), tree.arena[id]? = some e →
    e.weights = weigh (t.tally (passing t samples tree.root id))
  /-- The doubles are the numbers of samples, however many pass. -/
  exact : samples.length < 2 ^ 53 → ∀ (id : ℕ) (e : Entry Float), tree.arena[id]? = some e →
    Double.value e.weights.discard = (t.tally (passing t samples tree.root id)).discard ∧
      Double.value e.weights.keep = (t.tally (passing t samples tree.root id)).keep
  /-- The samples that pass a leaf are those that reach it. -/
  leaves : ∀ (id : ℕ) (e : Entry Float), tree.arena[id]? = some e → e.isLeaf = true →
    passing t samples tree.root id = samples.filter fun i => tree.leafFor? (t.row i) == some id
  /-- The samples of a split are those of its branches. -/
  branches : ∀ (id : ℕ) (e : Entry Float), tree.arena[id]? = some e → e.isLeaf = false →
    t.tally (passing t samples tree.root id) =
      ⟨(t.tally (passing t samples tree.root e.left.toNat)).discard +
          (t.tally (passing t samples tree.root e.right.toNat)).discard,
        (t.tally (passing t samples tree.root e.left.toNat)).keep +
          (t.tally (passing t samples tree.root e.right.toNat)).keep⟩
  /-- Each sample is counted at one leaf. -/
  total : (tree.leafIds.map fun id => (t.tally (passing t samples tree.root id)).discard +
    (t.tally (passing t samples tree.root id)).keep).sum = samples.length

section

variable {t : Training Float} {p : Params} {width : ℕ} {samples : List ℕ} {g : Growth Float}
  {tree : Tree Float}

theorem Tree.weights_eq (h : Grown t p width 0 samples g) (htree : g.tree? = .ok tree) {id : ℕ}
    {e : Entry Float} (he : tree.arena[id]? = some e) :
    e.weights = weigh (t.tally (passing t samples tree.root id)) := by
  obtain ⟨n, hn, rfl, hshows⟩ := tree.exists_node he
  obtain ⟨e', he', hweights⟩ := hshows.entry
  obtain rfl := Option.some.inj (he'.symm.trans he)
  rw [Growth.root_eq htree] at hn ⊢
  obtain ⟨g', depth, hnumbered, hgrown⟩ := h.of_mem hn
  rw [← hweights, hnumbered, hgrown.weights, Growth.id_numbered]

theorem Tree.leaves_total (h : Grown t p width 0 samples g) (htree : g.tree? = .ok tree) :
    (tree.leafIds.map fun id => samples.countP fun i => tree.leafFor? (t.row i) == some id).sum =
      samples.length := by
  have hkeys : (tree.leafIds.map some).Nodup :=
    tree.leafIds_nodup.map (Option.some_injective ℕ)
  have hreach : ∀ i ∈ samples, tree.leafFor? (t.row i) ∈ tree.leafIds.map some := by
    intro i hi
    obtain ⟨r, hr⟩ := h.exists_leafFor? 0 i hi
    rw [← Growth.root_eq htree] at hr
    have hleaf : tree.leafFor? (t.row i) = some r.1 := by rw [leafFor?, hr, Option.map_some]
    rw [hleaf]
    exact List.mem_map_of_mem (mem_leafIds_of_leafFor? hleaf)
  have htotal := sum_countP_keys hkeys (fun i => tree.leafFor? (t.row i)) hreach
  rw [List.map_map] at htotal
  exact htotal

theorem Tree.counts_of_grown (h : Grown t p width 0 samples g) (htree : g.tree? = .ok tree) :
    tree.Counts t samples := by
  have hleaves : ∀ (id : ℕ) (e : Entry Float), tree.arena[id]? = some e → e.isLeaf = true →
      passing t samples tree.root id =
        samples.filter fun i => tree.leafFor? (t.row i) == some id := by
    intro id e he hleaf
    apply List.filter_congr
    intro i _
    rw [Bool.eq_iff_iff, decide_eq_true_iff, beq_iff_eq, leafFor?_eq_some_iff he hleaf]
  refine ⟨fun id e => weights_eq h htree, ?_, hleaves, ?_, ?_⟩
  · intro hfew id e he
    have hpass : (passing t samples tree.root id).length < 2 ^ 53 :=
      (List.length_filter_le _ _).trans_lt hfew
    rw [weights_eq h htree he]
    exact ⟨(Double.ofNat_value (List.countP_le_length.trans_lt hpass)).2,
      (Double.ofNat_value (List.countP_le_length.trans_lt hpass)).2⟩
  · intro id e he hsplit
    obtain ⟨low, high, hn, hlow, hhigh⟩ := exists_split he hsplit
    rw [Growth.root_eq htree] at hn ⊢
    obtain ⟨hpassLow, hpassHigh⟩ := h.passing_branches hn
    rw [← hlow, ← hhigh, hpassLow, hpassHigh]
    exact tally_sides t _ _
  · rw [← leaves_total h htree]
    congr 1
    apply List.map_congr_left
    intro id hid
    obtain ⟨e, he, hleaf⟩ := mem_leafIds_iff.1 hid
    have hlabels : ∀ i ∈ passing t samples tree.root id, ∃ l, t.label? i = some l :=
      fun i hi => h.label i (List.mem_of_mem_filter hi)
    rw [Training.tally_total hlabels, hleaves id e he hleaf, List.countP_eq_length_filter]

/-- A fitted tree counts its samples: each node the labels of those whose rows pass it, so that each
leaf counts those that reach it, a split counts what its branches count, and the leaves count each
sample once. No leaf is below the greatest depth, and a split has samples of both labels, as many as
the parameters ask for. -/
theorem fitTree_counts_samples {s : Stream} (h : fitTree t p samples s = .ok tree) :
    tree.Counts t samples ∧ (∀ limit, p.maxDepth = some limit → tree.height ≤ limit) ∧
      ∀ (id : ℕ) (e : Entry Float), tree.arena[id]? = some e → e.isLeaf = false →
        max p.minSplit (2 * p.minLeaf) ≤ (passing t samples tree.root id).length ∧
          0 < (t.tally (passing t samples tree.root id)).discard ∧
          0 < (t.tally (passing t samples tree.root id)).keep := by
  obtain ⟨-, g, hgrowth, htree⟩ := fitTree_eq_ok_iff.1 h
  obtain ⟨first, -, hgrown⟩ := grown_of_growth? separating_float hgrowth
  refine ⟨Tree.counts_of_grown hgrown htree, ?_, ?_⟩
  · intro limit hlimit
    have hheight := hgrown.height_le hlimit (Nat.zero_le limit) 0
    rwa [Nat.zero_add, ← Growth.root_eq htree] at hheight
  · intro id e he hsplit
    obtain ⟨low, high, hn, -⟩ := Tree.exists_split he hsplit
    rw [Growth.root_eq htree] at hn ⊢
    obtain ⟨g', depth, hnumbered, hbelow⟩ := hgrown.of_mem hn
    rw [Node.id] at hnumbered hbelow
    cases g' with
    | leaf w => cases hnumbered
    | split w f x lowTree highTree => exact ⟨hbelow.of_split.2, hbelow.mixed⟩

/-- Four samples of three rows, one of them without numbers: the tree counts all four. -/
theorem fitTree_counts_samples_four :
    let t : Training Float := ⟨#[[1.0, 0.0 / 0.0], [2.0, 1.0 / 0.0], [3.0, 0.0]], #[0, 1, 1]⟩
    ∃ tree, fitTree t {} [0, 1, 2, 2] (.ofSeed 7) = .ok tree ∧
      tree.Counts t [0, 1, 2, 2] ∧
      ∀ (id : ℕ) (e : Entry Float), tree.arena[id]? = some e → e.isLeaf = false →
        2 ≤ (passing t [0, 1, 2, 2] tree.root id).length := by
  intro t
  have hdata : t.Rectangular 2 := ⟨by simp [t], rfl, by simp [t]⟩
  have hsamples : ∀ i ∈ [0, 1, 2, 2], i < t.rows.size := by simp [t]
  obtain ⟨tree, hfit⟩ := exists_fitTree hdata (List.cons_ne_nil _ _) hsamples {} (.ofSeed 7)
  obtain ⟨hcounts, -, hsplits⟩ := fitTree_counts_samples hfit
  exact ⟨tree, hfit, hcounts, fun id e he hsplit => (hsplits id e he hsplit).1⟩

end

end ClauseTriage
