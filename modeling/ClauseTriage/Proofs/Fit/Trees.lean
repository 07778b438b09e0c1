import ClauseTriage.Proofs.Double.Halves
import ClauseTriage.Proofs.Fit.Growing
import ClauseTriage.Proofs.Tree.Numbering

/-!
# Trees from samples

Fitting a tree to samples of rows of one length never fails: whatever the rows hold, a split tests
one of their features against a finite threshold.
-/
namespace ClauseTriage

open ClauseTriage.Random Cart

namespace Cart

/-- Rows of one length, and a label of zero or one for each of them. -/
structure Training.Rectangular {α : Type} (t : Training α) (width : ℕ) : Prop where
  rows : ∀ row ∈ t.rows, row.length = width
  labels : t.labels.size = t.rows.size
  binary : ∀ l ∈ t.labels, l ≤ 1

theorem Training.Rectangular.complete {α : Type} {t : Training α} {width : ℕ} {samples : List ℕ}
    (h : t.Rectangular width) (hsamples : ∀ i ∈ samples, i < t.rows.size) :
    t.Complete width samples := by
  intro i hi
  have hrow := hsamples i hi
  have hlabel : i < t.labels.size := h.labels ▸ hrow
  constructor
  · refine ⟨t.labels[i], ?_⟩
    have hbinary := h.binary _ (Array.getElem_mem hlabel)
    simp [label?, hlabel, hbinary]
  · intro f hf
    have hwidth := h.rows _ (Array.getElem_mem hrow)
    exact ⟨t.rows[i][f], by simp [value?, hrow, hwidth, hf]⟩

theorem separating_float : Separating Float := by
  intro a b ha hb hlt
  obtain ⟨hlow, hhigh⟩ := Double.midpoint_between ha hb (of_decide_eq_true hlt)
  exact ⟨decide_eq_true hlow, decide_eq_false hhigh⟩

/-- Every split of a grown tree tests a feature of the rows against a finite threshold. -/
theorem Grown.allTests {t : Training Float} {p : Params} {width depth : ℕ} {samples : List ℕ}
    {g : Growth Float} (h : Grown t p width depth samples g) :
    g.AllTests fun f x => f < width ∧ x.isFinite = true := by
  induction h with
  | leaf hcounts => trivial
  | split hcounts hgoes hfeatures hbest hsides hlow hhigh ihl ihh =>
    obtain ⟨hfeature, -, a, b, ha, hb, -, hthreshold, -⟩ := bestSplit?_spec hbest
    refine ⟨⟨hfeatures _ hfeature, ?_⟩, ihl, ihh⟩
    rw [hthreshold]
    exact Double.midpoint_finite ha hb

end Cart

variable {t : Training Float} {p : Params} {samples : List ℕ} {s : Stream} {tree : Tree Float}

/-- A fitted tree is the arena of a grown one. -/
theorem fitTree_eq_ok_iff : fitTree t p samples s = .ok tree ↔
    samples ≠ [] ∧ ∃ g, growth? t p samples s = some g ∧ g.tree? = .ok tree := by
  unfold fitTree
  cases samples with
  | nil => simp
  | cons i samples =>
    cases hgrowth : growth? t p (i :: samples) s with
    | none => simp
    | some g => cases htree : g.tree? <;> simp [htree]

theorem exists_fitTree {width : ℕ} (hdata : t.Rectangular width) (hsome : samples ≠ [])
    (hsamples : ∀ i ∈ samples, i < t.rows.size) (p : Params) (s : Stream) :
    ∃ tree, fitTree t p samples s = .ok tree := by
  obtain ⟨i, hi⟩ := List.exists_mem_of_ne_nil samples hsome
  have hrows : 0 < t.rows.size := Nat.zero_lt_of_lt (hsamples i hi)
  have hfirst : t.rows[0]? = some t.rows[0] := Array.getElem?_eq_getElem hrows
  have hcomplete := hdata.complete hsamples
  rw [← hdata.rows _ (Array.mem_of_getElem? hfirst)] at hcomplete
  obtain ⟨g, hg⟩ := exists_growth? hfirst hcomplete s
  obtain ⟨first, -, hgrown⟩ := grown_of_growth? separating_float hg
  obtain ⟨tree, htree⟩ := Growth.exists_tree (hgrown.allTests.imp fun _ _ h => h.2)
  exact ⟨tree, fitTree_eq_ok_iff.2 ⟨hsome, g, hg, htree⟩⟩

theorem leafThreshold_eq : (Entry.leafThreshold : Float) = -2.0 := by decide +kernel

/-- From some samples of rows of one length with labels of zero and one, which may repeat and hold
any numbers, a tree is fitted under all parameters and for all random numbers. The five lists it
stores are accepted as a tree. It grew node by node, and its nodes are numbered in preorder. A split
tests a feature of the rows against a finite threshold, and a leaf has the marks of a leaf. -/
theorem fitTree_accepted {width : ℕ} (hdata : t.Rectangular width) (hsome : samples ≠ [])
    (hsamples : ∀ i ∈ samples, i < t.rows.size) (p : Params) (s : Stream) :
    ∃ tree, fitTree t p samples s = .ok tree ∧
      (∀ left right feature threshold values,
        tree.arena.Stores left right feature threshold values →
        Tree.ofLists? left right feature threshold values = .ok tree) ∧
      (∃ g, Grown t p width 0 samples g ∧ tree.arena = g.arena) ∧ tree.InPreorder ∧
      (∀ e ∈ tree.arena, e.isLeaf = false →
        0 ≤ e.feature ∧ e.feature < width ∧ e.threshold.isFinite = true) ∧
      ∀ e ∈ tree.arena, e.isLeaf = true →
        e.left = -1 ∧ e.right = -1 ∧ e.feature = -2 ∧ e.threshold = -2.0 := by
  obtain ⟨tree, hfit⟩ := exists_fitTree hdata hsome hsamples p s
  obtain ⟨-, g, hgrowth, htree⟩ := fitTree_eq_ok_iff.1 hfit
  obtain ⟨first, hfirst, hgrown⟩ := grown_of_growth? separating_float hgrowth
  rw [hdata.rows _ (Array.mem_of_getElem? hfirst)] at hgrown
  have hentry : ∀ e ∈ tree.arena, (∃ w, e = Entry.leaf w) ∨ e.isLeaf = false ∧
      0 ≤ e.feature ∧ e.feature < width ∧ e.threshold.isFinite = true := by
    intro e he
    rw [Growth.arena_eq htree] at he
    obtain ⟨id, hid⟩ := Array.getElem?_of_mem he
    have hentry : (g.entries 0)[id]? = some e := by simpa [Growth.arena] using hid
    refine (Growth.getElem?_entries hgrown.allTests hentry).imp_right ?_
    rintro ⟨right, feature, threshold, w, rfl, -, -, hfeature, hfinite⟩
    refine ⟨?_, Int.natCast_nonneg feature, Int.ofNat_lt.2 hfeature, hfinite⟩
    simp [Entry.isLeaf]
    omega
  refine ⟨tree, hfit, fun _ _ _ _ _ => Tree.ofLists?_eq_ok_iff.2,
    ⟨g, hgrown, Growth.arena_eq htree⟩, Growth.inPreorder htree, ?_, ?_⟩
  · intro e he hsplit
    rcases hentry e he with ⟨w, rfl⟩ | ⟨-, htest⟩
    · cases hsplit
    · exact htest
  · intro e he hleaf
    rcases hentry e he with ⟨w, rfl⟩ | ⟨hsplit, -⟩
    · exact ⟨rfl, rfl, rfl, leafThreshold_eq⟩
    · rw [hsplit] at hleaf
      cases hleaf

/-- Rows with values that are no numbers, and a sample that repeats. -/
theorem fitTree_accepted_not_numbers :
    let t : Training Float := ⟨#[[1.0, 0.0 / 0.0], [2.0, 1.0 / 0.0], [3.0, 0.0]], #[0, 1, 1]⟩
    t.Rectangular 2 ∧ (∀ i ∈ [0, 1, 2, 2], i < t.rows.size) ∧
      ∃ tree, fitTree t {} [0, 1, 2, 2] (.ofSeed 7) = .ok tree ∧ tree.InPreorder := by
  intro t
  have hdata : t.Rectangular 2 := ⟨by simp [t], rfl, by simp [t]⟩
  have hsamples : ∀ i ∈ [0, 1, 2, 2], i < t.rows.size := by simp [t]
  obtain ⟨tree, hfit, -, -, horder, -⟩ :=
    fitTree_accepted hdata (List.cons_ne_nil _ _) hsamples {} (.ofSeed 7)
  exact ⟨hdata, hsamples, tree, hfit, horder⟩

end ClauseTriage
