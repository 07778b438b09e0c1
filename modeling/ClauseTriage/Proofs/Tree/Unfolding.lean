import ClauseTriage.Proofs.Tree.Acceptance

/-!
# The unfolded form of a tree

Unfolding a tree from its root never fails: the result lays out all positions, and every node of it
carries what its entry in the arena holds.
-/
namespace ClauseTriage

variable {α : Type}

namespace Node

/-- The positions of an unfolded tree. -/
def layout : Node α → Layout
  | leaf id _ => .leaf id
  | split id _ _ _ low high => .split id low.layout high.layout

@[simp] theorem root_layout (n : Node α) : n.layout.root = n.id := by
  cases n <;> rfl

/-- Every node carries the weights of its entry, and a split its feature, threshold and children. -/
def Shows (t : Arena α) : Node α → Prop
  | leaf id w => ∃ e, t[id]? = some e ∧ e.isLeaf = true ∧ w = e.weights
  | split id w feature threshold low high =>
    (∃ e, t[id]? = some e ∧ e.isLeaf = false ∧ w = e.weights ∧ feature = e.feature.toNat ∧
      threshold = e.threshold ∧ low.id = e.left.toNat ∧ high.id = e.right.toNat) ∧
    low.Shows t ∧ high.Shows t

theorem Shows.entry {t : Arena α} {n : Node α} (h : n.Shows t) :
    ∃ e, t[n.id]? = some e ∧ n.weights = e.weights := by
  cases n with
  | leaf id w =>
    obtain ⟨e, he, -, hw⟩ := h
    exact ⟨e, he, hw⟩
  | split id w f x low high =>
    obtain ⟨⟨e, he, -, hw, -⟩, -⟩ := h
    exact ⟨e, he, hw⟩

/-- Below a node that shows an arena, every node does. -/
theorem Shows.of_mem {t : Arena α} {n m : Node α} (h : n.Shows t) (hm : m ∈ n.preorder) :
    m.Shows t := by
  induction n with
  | leaf id w =>
    obtain rfl := List.mem_singleton.1 hm
    exact h
  | split id w f x low high ihl ihh =>
    rcases List.mem_cons.1 hm with rfl | hm
    · exact h
    · rcases List.mem_append.1 hm with hm | hm
      · exact ihl h.2.1 hm
      · exact ihh h.2.2 hm

end Node

namespace Arena

variable {t : Arena α}

/-- What is unfolded at a position shows the arena below it. -/
theorem shows_of_subtree? {fuel id : Nat} {n : Node α} (h : t.subtree? fuel id = some n) :
    n.id = id ∧ n.Shows t := by
  induction fuel generalizing id n with
  | zero => simp [subtree?] at h
  | succ fuel ih =>
    unfold subtree? at h
    split at h
    · simp at h
    · rename_i e he
      split at h
      · rename_i hleaf
        obtain rfl := Option.some.inj h
        exact ⟨rfl, e, he, hleaf, rfl⟩
      · rename_i hleaf
        split at h
        · rename_i low high hlow hhigh
          obtain rfl := Option.some.inj h
          obtain ⟨hlowId, hlow⟩ := ih hlow
          obtain ⟨hhighId, hhigh⟩ := ih hhigh
          exact ⟨rfl, ⟨e, he, by simpa using hleaf, rfl, rfl, rfl, hlowId, hhighId⟩, hlow, hhigh⟩
        · simp at h

/-- Unfolding follows a layout when the fuel is at least the number of its positions. -/
theorem subtree?_of_follows {l : Layout} (h : l.Follows t.links) (fuel : Nat)
    (hfuel : l.ids.length ≤ fuel) : ∃ n, t.subtree? fuel l.root = some n ∧ n.layout = l := by
  induction l generalizing fuel with
  | leaf id =>
    obtain ⟨fuel, rfl⟩ : ∃ m, fuel = m + 1 := ⟨fuel - 1, by simp [Layout.ids] at hfuel; omega⟩
    obtain ⟨hl, -⟩ := h
    rw [links_left, Option.map_eq_some_iff] at hl
    obtain ⟨e, he, hl⟩ := hl
    exact ⟨.leaf id e.weights, by simp [subtree?, he, Entry.isLeaf, hl], rfl⟩
  | split id low high ihl ihh =>
    simp only [Layout.ids, List.length_cons, List.length_append] at hfuel
    obtain ⟨fuel, rfl⟩ : ∃ m, fuel = m + 1 := ⟨fuel - 1, by omega⟩
    obtain ⟨hl, hr, hlow, hhigh⟩ := h
    obtain ⟨nlow, hnlow, rfl⟩ := ihl hlow fuel (by omega)
    obtain ⟨nhigh, hnhigh, rfl⟩ := ihh hhigh fuel (by omega)
    rw [links_left, Option.map_eq_some_iff] at hl
    obtain ⟨e, he, hl⟩ := hl
    have hr' : e.right = nhigh.id := by simpa [links_right, he] using hr
    have hne : (nlow.layout.root : Int) ≠ -1 := by omega
    rw [Node.root_layout] at hl hne hnlow hnhigh
    refine ⟨.split id e.weights e.feature.toNat e.threshold nlow nhigh, ?_, rfl⟩
    simp [subtree?, he, Entry.isLeaf, hl, hr', hne, hnlow, hnhigh]

end Arena

namespace Tree

variable [Scalar α]

theorem inOrder (t : Tree α) : ∀ e ∈ t.arena, e.InOrder t.arena.size :=
  (Arena.fault?_eq_none_iff.1 t.valid).2.1

/-- The unfolded tree is found, lays out every position once and shows the arena. -/
theorem root_spans (t : Tree α) :
    t.root.layout.Spans t.arena.links t.arena.size ∧ t.root.Shows t.arena := by
  obtain ⟨hsize, hentries, hlinks⟩ := Arena.fault?_eq_none_iff.1 t.valid
  have hb := Arena.binary_of_inOrder hentries
  obtain ⟨l, hl⟩ := (Arena.linkFault?_eq_none_iff_spans hb hsize).1 hlinks
  obtain ⟨n, hn, rfl⟩ := Arena.subtree?_of_follows hl.1 t.arena.size
    (by simp [hl.2.2.length_eq])
  rw [hl.2.1] at hn
  have hroot : t.root = n := by simp [root, hn]
  rw [hroot]
  exact ⟨hl, (Arena.shows_of_subtree? hn).2⟩

theorem id_root (t : Tree α) : t.root.id = 0 :=
  (Node.root_layout t.root).symm.trans t.root_spans.1.2.1

/-- A split tests a feature against a finite threshold. -/
theorem split_bounds {t : Tree α} {e : Entry α} (he : e ∈ t.arena) (hsplit : e.isLeaf = false) :
    0 ≤ e.feature ∧ Scalar.isFinite e.threshold = true := by
  rcases t.inOrder e he with ⟨hleft, -⟩ | ⟨-, -, -, -, htest⟩
  · simp [Entry.isLeaf, hleft] at hsplit
  · exact htest

theorem mem_features_iff {t : Tree α} {f : ℕ} :
    f ∈ t.features ↔ ∃ e ∈ t.arena, e.isLeaf = false ∧ e.feature.toNat = f := by
  simp only [features, List.mem_filterMap, Array.mem_toList_iff]
  refine exists_congr fun e => and_congr_right fun _ => ?_
  cases e.isLeaf <;> simp

theorem mem_features {t : Tree α} {e : Entry α} (he : e ∈ t.arena) (hleaf : e.isLeaf = false) :
    e.feature.toNat ∈ t.features :=
  mem_features_iff.2 ⟨e, he, hleaf, rfl⟩

end Tree

/-- A row with all tested features reaches a leaf, and its weights are those of the leaf's entry. -/
theorem Node.exists_leafFor? [Scalar α] {t : Arena α} {n : Node α} (hn : n.Shows t) {row : List α}
    (hrow : ∀ e ∈ t, e.isLeaf = false → e.feature.toNat < row.length) :
    ∃ id, ∃ e ∈ t, e.isLeaf = true ∧ n.leafFor? row = some (id, e.weights) := by
  induction n with
  | leaf id w =>
    obtain ⟨e, he, hleaf, rfl⟩ := hn
    exact ⟨id, e, Array.mem_of_getElem? he, hleaf, rfl⟩
  | split id w feature threshold low high ihl ihh =>
    obtain ⟨⟨e, he, hleaf, -, rfl, -⟩, hlow, hhigh⟩ := hn
    have hfeature := hrow e (Array.mem_of_getElem? he) hleaf
    rw [Node.leafFor?, List.getElem?_eq_getElem hfeature]
    dsimp only
    split
    · exact ihl hlow
    · exact ihh hhigh

end ClauseTriage
