import ClauseTriage.Model.Basic
import ClauseTriage.Proofs.Attempts
import ClauseTriage.Proofs.Source.Ratio
import ClauseTriage.Proofs.Tree.Unfolding

/-!
# Two ways to decide

A model decides by the classes of its leaves, where a draw means discard, and as its compiled source
does, where half of the votes suffice. On leaves of counts both are told by the number of members
that predict keep, so they part at a draw and nowhere else.
-/
namespace ClauseTriage

open Double (IsCount)

theorem Weights.heavier_eq {α : Type} [Scalar α] (w : Weights α) :
    w.heavier = 0 ∨ w.heavier = 1 := by
  unfold heavier
  split
  · exact .inr rfl
  · exact .inl rfl

/-- With two classes, the later one wins only with more votes. -/
theorem majorityClass_pair (discards keeps : ℕ) :
    majorityClass [discards, keeps] = if discards < keeps then 1 else 0 := by
  rw [majorityClass]
  simp only [List.zipIdx_cons, List.zipIdx_nil, List.foldl_cons, List.foldl_nil, strongerClass]
  split <;> split <;> simp_all

/-- Every label is one of two. -/
theorem count_labels {classes : List Label} (h : ∀ c ∈ classes, c = 0 ∨ c = 1) :
    classes.count 0 + classes.count 1 = classes.length := by
  induction classes with
  | nil => rfl
  | cons c classes ih =>
    obtain ⟨hc, hclasses⟩ := List.forall_mem_cons.1 h
    have := ih hclasses
    rcases hc with rfl | rfl <;> simp <;> omega

namespace Model

/-- The members that predict keep. -/
def keepVotes (m : Model) (row : List Float) : ℕ :=
  m.trees.countP fun t : Tree Float => t.predict? row == some 1

variable {m : Model} {row : List Float}

/-- A row with all tested features has a leaf in every member, and its weights are counts where all
leaves have counts. -/
theorem exists_leafWeights
    (hleaves : ∀ t ∈ m.trees, ∀ e ∈ t.arena, e.isLeaf = true →
      IsCount e.weights.discard ∧ IsCount e.weights.keep)
    (hrow : ∀ t ∈ m.trees, ∀ f ∈ t.features, f < row.length) :
    ∃ w : Tree Float → Weights Float, ∀ t ∈ m.trees, t.leafWeights? row = some (w t) ∧
      IsCount (w t).discard ∧ IsCount (w t).keep := by
  have hmember : ∀ t ∈ m.trees, ∃ w, t.leafWeights? row = some w ∧ IsCount w.discard ∧
      IsCount w.keep := by
    intro t ht
    obtain ⟨id, e, he, hleaf, hreach⟩ := Node.exists_leafFor? t.root_spans.2 fun e he hleaf =>
      hrow t ht _ (Tree.mem_features he hleaf)
    exact ⟨e.weights, by rw [Tree.leafWeights?, hreach, Option.map_some], hleaves t ht e he hleaf⟩
  have : Nonempty (Weights Float) := ⟨⟨0, 0⟩⟩
  choose! w hw using hmember
  exact ⟨w, hw⟩

variable {w : Tree Float → Weights Float}

theorem keepVotes_eq (h : ∀ t ∈ m.trees, t.leafWeights? row = some (w t)) :
    m.keepVotes row = (m.trees.map fun t => (w t).heavier).count 1 := by
  rw [keepVotes, List.count, List.countP_map]
  apply List.countP_congr
  intro t ht
  simp [Tree.predict?, h t ht]

/-- The class of a row is told by the number of members that predict keep. -/
theorem predict?_eq (h : ∀ t ∈ m.trees, t.leafWeights? row = some (w t)) :
    m.predict? row = some (if m.trees.length < 2 * m.keepVotes row then 1 else 0) := by
  have hclass : ∀ t ∈ m.trees, t.predict? row = some (w t).heavier := fun t ht => by
    rw [Tree.predict?, h t ht, Option.map_some]
  rw [keepVotes_eq h]
  cases m with
  | single t =>
    rw [predict?, hclass t (List.mem_singleton_self t)]
    rcases (w t).heavier_eq with ht | ht <;> simp [trees, ht]
  | ensemble e =>
    obtain ⟨classes, hclasses⟩ : ∃ cs, cs = e.members.map fun t => (w t).heavier := ⟨_, rfl⟩
    have hmembers : (e.members.mapM fun t : Tree Float => t.predict? row) = some classes := by
      rw [hclasses]
      exact mapM_eq_some_map hclass
    have hlength : classes.length = e.members.length := by rw [hclasses, List.length_map]
    have htotal : classes.count 0 + classes.count 1 = classes.length := by
      apply count_labels
      intro c hc
      rw [hclasses] at hc
      obtain ⟨t, -, rfl⟩ := List.mem_map.1 hc
      exact (w t).heavier_eq
    rw [predict?, hmembers, Option.map_some, tally, majorityClass_pair, trees, ← hclasses]
    congr 2
    apply propext
    omega

/-- So is the decision of the compiled source. -/
theorem compiledKeep?_eq_votes
    (h : ∀ t ∈ m.trees, t.leafWeights? row = some (w t) ∧
      IsCount (w t).discard ∧ IsCount (w t).keep) :
    m.compiledKeep? row = some (decide (keepThreshold m.trees.length ≤ m.keepVotes row)) := by
  have hleaves : (m.trees.mapM fun t : Tree Float => t.leafWeights? row) =
      some (m.trees.map w) := mapM_eq_some_map fun t ht => (h t ht).1
  have hvotes : (m.trees.map w).countP Code.votesKeep = m.keepVotes row := by
    rw [keepVotes_eq fun t ht => (h t ht).1, List.count, List.countP_map, List.countP_map]
    apply List.countP_congr
    intro t ht
    obtain ⟨-, hdiscard, hkeep⟩ := h t ht
    simp [votesKeep_iff hdiscard hkeep]
  rw [compiledKeep?, hleaves, Option.map_some, hvotes]

/-- Where all leaves have counts, a model and its compiled source decide every row with all tested
features. The source keeps it when the model does or when the members draw; so they agree where the
number of members is odd, the source never discards what the model keeps, and neither depends on the
order of the members. -/
theorem compiledKeep?_iff_predict? (m : Model) (row : List Float)
    (hleaves : ∀ t ∈ m.trees, ∀ e ∈ t.arena, e.isLeaf = true →
      IsCount e.weights.discard ∧ IsCount e.weights.keep)
    (hrow : ∀ t ∈ m.trees, ∀ f ∈ t.features, f < row.length) :
    ∃ keep label, m.compiledKeep? row = some keep ∧ m.predict? row = some label ∧
      (keep = true ↔ label = 1 ∨
        (Even m.trees.length ∧ m.keepVotes row = m.trees.length / 2)) ∧
      (Odd m.trees.length → (keep = true ↔ label = 1)) ∧
      (label = 1 → keep = true) ∧
      ∀ m' : Model, m'.trees.Perm m.trees →
        m'.compiledKeep? row = some keep ∧ m'.predict? row = some label := by
  obtain ⟨w, hw⟩ := exists_leafWeights hleaves hrow
  have hkeep := compiledKeep?_eq_votes hw
  have hlabel := predict?_eq fun t ht => (hw t ht).1
  have hmajority : (if m.trees.length < 2 * m.keepVotes row then (1 : Label) else 0) = 1 ↔
      m.trees.length < 2 * m.keepVotes row := by
    split <;> simp_all
  refine ⟨_, _, hkeep, hlabel, ?_, ?_, ?_, fun m' hperm => ?_⟩
  · rw [hmajority, decide_eq_true_iff, keepThreshold, Nat.even_iff]
    omega
  · intro hodd
    rw [Nat.odd_iff] at hodd
    rw [hmajority, decide_eq_true_iff, keepThreshold]
    omega
  · rw [hmajority, decide_eq_true_iff, keepThreshold]
    omega
  · have hw' : ∀ t ∈ m'.trees, t.leafWeights? row = some (w t) ∧
        IsCount (w t).discard ∧ IsCount (w t).keep := fun t ht => hw t (hperm.subset ht)
    have hvotes : m'.keepVotes row = m.keepVotes row := hperm.countP_eq _
    rw [compiledKeep?_eq_votes hw', predict?_eq fun t ht => (hw' t ht).1, hperm.length_eq, hvotes]
    exact ⟨rfl, rfl⟩

/-- Two members draw: the model discards the row and its compiled source keeps it. -/
theorem compiledKeep?_iff_predict?_draw :
    ∃ e : Ensemble, e.members = [.leaf ⟨0.0, 4.0⟩, .leaf ⟨4.0, 0.0⟩] ∧
      (∀ t ∈ e.members, ∀ entry ∈ t.arena, entry.isLeaf = true →
        IsCount entry.weights.discard ∧ IsCount entry.weights.keep) ∧
      (ensemble e).keepVotes [] = 1 ∧ (ensemble e).compiledKeep? [] = some true ∧
      (ensemble e).predict? [] = some 0 ∧
      ∀ m' : Model, m'.trees.Perm e.members →
        m'.compiledKeep? [] = some true ∧ m'.predict? [] = some 0 := by
  have hzero : IsCount 0.0 := ⟨0, by decide, by decide +kernel⟩
  have hfour : IsCount 4.0 := ⟨4, by decide, by decide +kernel⟩
  obtain ⟨e, he⟩ : ∃ e : Ensemble, e.members = [.leaf ⟨0.0, 4.0⟩, .leaf ⟨4.0, 0.0⟩] :=
    ⟨⟨_, List.cons_ne_nil _ _⟩, rfl⟩
  have hleaves : ∀ t ∈ e.members, ∀ entry ∈ t.arena, entry.isLeaf = true →
      IsCount entry.weights.discard ∧ IsCount entry.weights.keep := by
    simp [he, Tree.leaf, Entry.leaf, hzero, hfour]
  have hrow : ∀ t ∈ e.members, ∀ f ∈ t.features, f < ([] : List Float).length := by
    simp [he, Tree.leaf, Entry.leaf, Tree.features, Entry.isLeaf]
  have hvotes : (ensemble e).keepVotes [] = 1 := by
    rw [keepVotes, trees, he]
    decide +kernel
  obtain ⟨keep, label, hkeep, hlabel, -, -, -, horder⟩ :=
    compiledKeep?_iff_predict? (.ensemble e) [] hleaves hrow
  have hkept : (ensemble e).compiledKeep? [] = some true := by
    rw [compiledKeep?, trees, he]
    decide +kernel
  have hdiscarded : (ensemble e).predict? [] = some 0 := by
    rw [predict?, he]
    decide +kernel
  obtain rfl : keep = true := Option.some.inj (hkeep.symm.trans hkept)
  obtain rfl : label = 0 := Option.some.inj (hlabel.symm.trans hdiscarded)
  exact ⟨e, he, hleaves, hvotes, hkept, hdiscarded, horder⟩

end Model

end ClauseTriage
