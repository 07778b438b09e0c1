import ClauseTriage.Proofs.Tree.Numbering

/-!
# Ways of rows

The nodes that a row passes on its way down, tested as the walk to its leaf tests it. Where no
number repeats, a row passes the root of a branch exactly when it passes the split above it and its
value is on that side, and it passes one leaf.
-/
namespace ClauseTriage

variable {α : Type}

theorem Node.self_mem_preorder (n : Node α) : n ∈ n.preorder := by
  cases n <;> simp [preorder]

theorem Node.preorder_subset {n m : Node α} (h : m ∈ n.preorder) : m.preorder ⊆ n.preorder := by
  induction n with
  | leaf id w =>
    obtain rfl := List.mem_singleton.1 h
    exact List.Subset.refl _
  | split id w f x low high ihl ihh =>
    rcases List.mem_cons.1 h with rfl | h
    · exact List.Subset.refl _
    · apply List.subset_cons_of_subset
      rcases List.mem_append.1 h with h | h
      · exact List.subset_append_of_subset_left _ (ihl h)
      · exact List.subset_append_of_subset_right _ (ihh h)

variable [Scalar α]

/-- The numbers of the nodes that a row passes. A row that lacks a tested feature stops there. -/
def Node.path (row : List α) : Node α → List ℕ
  | leaf id _ => [id]
  | split id _ feature threshold low high =>
    id :: match row[feature]? with
      | none => []
      | some value => if Scalar.le value threshold then low.path row else high.path row

namespace Node

variable {row : List α} {n : Node α}

theorem id_mem_path (n : Node α) (row : List α) : n.id ∈ n.path row := by
  cases n <;> simp [path, Node.id]

theorem path_subset (n : Node α) (row : List α) : n.path row ⊆ n.preorder.map Node.id := by
  induction n with
  | leaf id w => exact List.Subset.refl _
  | split id w f x low high ihl ihh =>
    rw [path, preorder, List.map_cons, List.map_append]
    apply List.cons_subset_cons
    split
    · exact List.nil_subset _
    · split
      · exact List.subset_append_of_subset_left _ ihl
      · exact List.subset_append_of_subset_right _ ihh

section Branches

variable {id feature : ℕ} {w : Weights α} {threshold : α} {low high m : Node α}

/-- Which nodes of the low branch are passed. -/
theorem mem_path_low
    (hn : ((split id w feature threshold low high).preorder.map Node.id).Nodup)
    (hm : m ∈ low.preorder) :
    m.id ∈ (split id w feature threshold low high).path row ↔
      (∃ v, row[feature]? = some v ∧ Scalar.le v threshold = true) ∧ m.id ∈ low.path row := by
  rw [preorder, List.map_cons, List.map_append, List.nodup_cons, List.nodup_append] at hn
  obtain ⟨hroot, -, -, hapart⟩ := hn
  have hmem : m.id ∈ low.preorder.map Node.id := List.mem_map_of_mem hm
  have hne : m.id ≠ id := fun h => hroot (List.mem_append_left _ (h ▸ hmem))
  rw [path, List.mem_cons, or_iff_right hne]
  cases hrow : row[feature]? with
  | none => simp
  | some v =>
    by_cases hle : Scalar.le v threshold = true
    · simp [hle]
    · have hnot : m.id ∉ high.path row := fun h => hapart _ hmem _ (high.path_subset row h) rfl
      simp [hle, hnot]

/-- Which nodes of the high branch are passed. -/
theorem mem_path_high
    (hn : ((split id w feature threshold low high).preorder.map Node.id).Nodup)
    (hm : m ∈ high.preorder) :
    m.id ∈ (split id w feature threshold low high).path row ↔
      (∃ v, row[feature]? = some v ∧ Scalar.le v threshold = false) ∧ m.id ∈ high.path row := by
  rw [preorder, List.map_cons, List.map_append, List.nodup_cons, List.nodup_append] at hn
  obtain ⟨hroot, -, -, hapart⟩ := hn
  have hmem : m.id ∈ high.preorder.map Node.id := List.mem_map_of_mem hm
  have hne : m.id ≠ id := fun h => hroot (List.mem_append_right _ (h ▸ hmem))
  rw [path, List.mem_cons, or_iff_right hne]
  cases hrow : row[feature]? with
  | none => simp
  | some v =>
    by_cases hle : Scalar.le v threshold = true
    · have hnot : m.id ∉ low.path row := fun h => hapart _ (low.path_subset row h) _ hmem rfl
      simp [hle, hnot]
    · simp [hle]

end Branches

/-- A row passes a node below another one when it passes that one and goes on to the node. -/
theorem mem_path_iff {m k : Node α} (hn : (n.preorder.map Node.id).Nodup) (hm : m ∈ n.preorder)
    (hk : k ∈ m.preorder) : k.id ∈ n.path row ↔ m.id ∈ n.path row ∧ k.id ∈ m.path row := by
  induction n with
  | leaf id w =>
    obtain rfl := List.mem_singleton.1 hm
    exact (and_iff_right (id_mem_path _ row)).symm
  | split id w f x low high ihl ihh =>
    have hbranches := hn
    rw [preorder, List.map_cons, List.map_append, List.nodup_cons, List.nodup_append] at hbranches
    obtain ⟨-, hnlow, hnhigh, -⟩ := hbranches
    rcases List.mem_cons.1 hm with rfl | hm
    · exact (and_iff_right (id_mem_path _ row)).symm
    · rcases List.mem_append.1 hm with hm | hm
      · rw [mem_path_low hn hm, mem_path_low hn (preorder_subset hm hk), ihl hnlow hm, and_assoc]
      · rw [mem_path_high hn hm, mem_path_high hn (preorder_subset hm hk), ihh hnhigh hm, and_assoc]

/-- The leaf that a row reaches is on its way. -/
theorem mem_path_of_leafFor? {id : ℕ} {w : Weights α} (h : n.leafFor? row = some (id, w)) :
    leaf id w ∈ n.preorder ∧ id ∈ n.path row := by
  induction n with
  | leaf id' w' =>
    obtain ⟨rfl, rfl⟩ := Prod.mk.inj (Option.some.inj h)
    exact ⟨List.mem_singleton_self _, List.mem_singleton_self _⟩
  | split id' w' f x low high ihl ihh =>
    rw [leafFor?] at h
    rw [preorder, path]
    cases hrow : row[f]? with
    | none => simp [hrow] at h
    | some v =>
      simp only [hrow] at h
      split at h
      · rename_i hle
        obtain ⟨hmem, hpath⟩ := ihl h
        exact ⟨List.mem_cons_of_mem _ (List.mem_append_left _ hmem), by simp [hle, hpath]⟩
      · rename_i hle
        obtain ⟨hmem, hpath⟩ := ihh h
        exact ⟨List.mem_cons_of_mem _ (List.mem_append_right _ hmem), by simp [hle, hpath]⟩

/-- A leaf that a row passes is the one it reaches. -/
theorem leafFor?_of_mem_path (hn : (n.preorder.map Node.id).Nodup) {id : ℕ} {w : Weights α}
    (hleaf : leaf id w ∈ n.preorder) (hpath : id ∈ n.path row) :
    n.leafFor? row = some (id, w) := by
  induction n with
  | leaf id' w' =>
    obtain ⟨rfl, rfl⟩ := leaf.inj (List.mem_singleton.1 hleaf)
    rfl
  | split id' w' f x low high ihl ihh =>
    have hbranches := hn
    rw [preorder, List.map_cons, List.map_append, List.nodup_cons, List.nodup_append] at hbranches
    obtain ⟨-, hnlow, hnhigh, -⟩ := hbranches
    rcases List.mem_cons.1 hleaf with h | h
    · cases h
    rw [leafFor?]
    rcases List.mem_append.1 h with h | h
    · obtain ⟨⟨v, hv, hle⟩, hlow⟩ := (mem_path_low hn h).1 hpath
      simpa [hv, hle] using ihl hnlow h hlow
    · obtain ⟨⟨v, hv, hle⟩, hhigh⟩ := (mem_path_high hn h).1 hpath
      simpa [hv, hle] using ihh hnhigh h hhigh

end Node

theorem Node.length_preorder {α : Type} (n : Node α) : n.preorder.length = n.size := by
  induction n with
  | leaf id w => rfl
  | split id w f x low high ihl ihh =>
    rw [preorder, List.length_cons, List.length_append, ihl, ihh, size]
    omega

/-- The leaves of a tree that shows an arena have the entries of leaves. -/
theorem Node.Shows.leafCount_eq {α : Type} {t : Arena α} {n : Node α} (h : n.Shows t) :
    n.leafCount = (n.preorder.map Node.id).countP fun id => t[id]?.any Entry.isLeaf := by
  induction n with
  | leaf id w =>
    obtain ⟨e, he, hleaf, -⟩ := h
    simp [leafCount, preorder, Node.id, he, hleaf]
  | split id w f x low high ihl ihh =>
    obtain ⟨⟨e, he, hsplit, -⟩, hlow, hhigh⟩ := h
    rw [leafCount, ihl hlow, ihh hhigh]
    simp [preorder, Node.id, he, hsplit]

namespace Tree

variable {t : Tree α}

theorem ids_perm (t : Tree α) : (t.root.preorder.map Node.id).Perm (List.range t.arena.size) := by
  rw [← Node.ids_layout]
  exact t.root_spans.1.2.2

theorem ids_nodup (t : Tree α) : (t.root.preorder.map Node.id).Nodup :=
  t.ids_perm.nodup_iff.2 List.nodup_range

/-- Every entry is shown by a node. -/
theorem exists_node {id : ℕ} {e : Entry α} (he : t.arena[id]? = some e) :
    ∃ n ∈ t.root.preorder, n.id = id ∧ n.Shows t.arena := by
  obtain ⟨hid, -⟩ := Array.getElem?_eq_some_iff.1 he
  obtain ⟨n, hn, rfl⟩ := List.mem_map.1 (t.ids_perm.mem_iff.2 (List.mem_range.2 hid))
  exact ⟨n, hn, rfl, t.root_spans.2.of_mem hn⟩

/-- A leaf of the arena is a leaf of the unfolded tree. -/
theorem exists_leaf {id : ℕ} {e : Entry α} (he : t.arena[id]? = some e) (hleaf : e.isLeaf = true) :
    Node.leaf id e.weights ∈ t.root.preorder := by
  obtain ⟨n, hn, rfl, hshows⟩ := exists_node he
  cases n with
  | leaf id w =>
    obtain ⟨e', he', -, rfl⟩ := hshows
    obtain rfl := Option.some.inj (he'.symm.trans he)
    exact hn
  | split id w f x low high =>
    obtain ⟨⟨e', he', hsplit, -⟩, -⟩ := hshows
    obtain rfl := Option.some.inj (he'.symm.trans he)
    rw [hsplit] at hleaf
    cases hleaf

/-- An inner entry of the arena is a split of the unfolded tree. -/
theorem exists_split {id : ℕ} {e : Entry α} (he : t.arena[id]? = some e)
    (hsplit : e.isLeaf = false) : ∃ low high : Node α,
      .split id e.weights e.feature.toNat e.threshold low high ∈ t.root.preorder ∧
        low.id = e.left.toNat ∧ high.id = e.right.toNat := by
  obtain ⟨n, hn, rfl, hshows⟩ := exists_node he
  cases n with
  | leaf id w =>
    obtain ⟨e', he', hleaf, -⟩ := hshows
    obtain rfl := Option.some.inj (he'.symm.trans he)
    rw [hsplit] at hleaf
    cases hleaf
  | split id w f x low high =>
    obtain ⟨⟨e', he', -, rfl, rfl, rfl, hlow, hhigh⟩, -⟩ := hshows
    obtain rfl := Option.some.inj (he'.symm.trans he)
    exact ⟨low, high, hn, hlow, hhigh⟩

theorem mem_leafIds_iff {id : ℕ} :
    id ∈ t.leafIds ↔ ∃ e, t.arena[id]? = some e ∧ e.isLeaf = true := by
  simp only [leafIds, List.mem_filterMap, Prod.exists, List.mem_zipIdx_iff_getElem?,
    Array.getElem?_toList, Option.ite_none_right_eq_some, Option.some.injEq]
  constructor
  · rintro ⟨e, id', he, hleaf, rfl⟩
    exact ⟨e, he, hleaf⟩
  · rintro ⟨e, he, hleaf⟩
    exact ⟨e, id, he, hleaf, rfl⟩

theorem leafIds_nodup (t : Tree α) : t.leafIds.Nodup := by
  have hsub (entries : List (Entry α × ℕ)) :
      (entries.filterMap fun x => if x.1.isLeaf then some x.2 else none).Sublist
        (entries.map Prod.snd) := by
    induction entries with
    | nil => exact .slnil
    | cons x entries ih =>
      by_cases hx : x.1.isLeaf = true
      · simpa [hx] using ih
      · simpa [hx] using ih.cons x.2
  have hids : (t.arena.toList.zipIdx.map Prod.snd).Nodup := by
    rw [List.zipIdx_map_snd]
    exact List.nodup_range'
  exact hids.sublist (hsub _)

theorem size_root (t : Tree α) : t.root.size = t.size := by
  rw [← Node.length_preorder, ← List.length_map, t.ids_perm.length_eq, List.length_range, size]

/-- The leaves of the unfolded tree are those of the arena. -/
theorem leafCount_root (t : Tree α) : t.root.leafCount = t.leafCount := by
  have hperm : t.leafIds.Perm
      ((List.range t.arena.size).filter fun id => t.arena[id]?.any Entry.isLeaf) := by
    rw [List.perm_ext_iff_of_nodup t.leafIds_nodup (List.nodup_range.filter _)]
    intro id
    rw [mem_leafIds_iff, List.mem_filter, List.mem_range, Option.any_eq_true]
    constructor
    · rintro ⟨e, he, hleaf⟩
      exact ⟨(Array.getElem?_eq_some_iff.1 he).1, e, he, hleaf⟩
    · rintro ⟨-, e, he, hleaf⟩
      exact ⟨e, he, hleaf⟩
  rw [t.root_spans.2.leafCount_eq, t.ids_perm.countP_eq, List.countP_eq_length_filter,
    ← hperm.length_eq, leafCount]

/-- A row reaches a leaf exactly when it passes it. -/
theorem leafFor?_eq_some_iff {id : ℕ} {e : Entry α} (he : t.arena[id]? = some e)
    (hleaf : e.isLeaf = true) (row : List α) : t.leafFor? row = some id ↔ id ∈ t.root.path row := by
  have hmem := exists_leaf he hleaf
  constructor
  · intro h
    obtain ⟨⟨id', w⟩, hreach, rfl⟩ := Option.map_eq_some_iff.1 h
    exact (Node.mem_path_of_leafFor? hreach).2
  · intro h
    rw [leafFor?, Node.leafFor?_of_mem_path t.ids_nodup hmem h, Option.map_some]

theorem mem_leafIds_of_leafFor? {row : List α} {id : ℕ} (h : t.leafFor? row = some id) :
    id ∈ t.leafIds := by
  obtain ⟨⟨id', w⟩, hreach, rfl⟩ := Option.map_eq_some_iff.1 h
  obtain ⟨e, he, hleaf, -⟩ := t.root_spans.2.of_mem (Node.mem_path_of_leafFor? hreach).1
  exact mem_leafIds_iff.2 ⟨e, he, hleaf⟩

end Tree

end ClauseTriage
