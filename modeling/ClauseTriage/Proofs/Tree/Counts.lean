import ClauseTriage.Proofs.Tree.Descent

/-!
# Counts and height

Splits with two branches leave one leaf more than there are splits. So the leaves are more than the
tree is high, and each level doubles them at most. The largest tested feature is found by looking
through the arena; since every position is reached from the root, it is the largest of the splits
below the root.
-/
namespace ClauseTriage

variable {α : Type}

namespace Node

theorem size_add_one (n : Node α) : n.size + 1 = 2 * n.leafCount := by
  induction n with
  | leaf id w => rfl
  | split id w f x low high ihl ihh =>
    rw [size, leafCount]
    omega

theorem height_lt_leafCount (n : Node α) : n.height < n.leafCount := by
  induction n with
  | leaf id w => exact Nat.one_pos
  | split id w f x low high ihl ihh =>
    rw [height, leafCount]
    omega

/-- A level doubles the leaves at most. -/
theorem leafCount_le_two_pow (n : Node α) : n.leafCount ≤ 2 ^ n.height := by
  induction n with
  | leaf id w => exact le_rfl
  | split id w f x low high ihl ihh =>
    calc low.leafCount + high.leafCount
        ≤ 2 ^ low.height + 2 ^ high.height := Nat.add_le_add ihl ihh
      _ ≤ 2 ^ max low.height high.height + 2 ^ max low.height high.height :=
        Nat.add_le_add (Nat.pow_le_pow_right two_pos (le_max_left _ _))
          (Nat.pow_le_pow_right two_pos (le_max_right _ _))
      _ = 2 ^ (1 + max low.height high.height) := by rw [pow_add, pow_one, two_mul]

end Node

namespace Tree

variable [Scalar α]

theorem exists_way (t : Tree α) {id : ℕ} (hid : id < t.arena.size) :
    ∃ way, t.arena.links.follow? way 0 = some id := by
  obtain ⟨way, hway, -⟩ := t.root_spans.1.oneWay id hid
  exact ⟨way, hway⟩

theorem exists_rootEntry (t : Tree α) : ∃ e, t.arena[0]? = some e := by
  obtain ⟨e, he, -⟩ := t.root_spans.2.entry
  exact ⟨e, t.id_root ▸ he⟩

/-- Nothing is tested exactly where the root is a leaf. -/
theorem features_eq_nil_iff {t : Tree α} :
    t.features = [] ↔ ∃ e, t.arena[0]? = some e ∧ e.isLeaf = true := by
  constructor
  · intro hnone
    obtain ⟨e, he⟩ := t.exists_rootEntry
    refine ⟨e, he, ?_⟩
    by_contra hsplit
    have hmem := mem_features (Array.mem_of_getElem? he) (by simpa using hsplit)
    rw [hnone] at hmem
    cases hmem
  · rintro ⟨e, he, hleaf⟩
    rw [List.eq_nil_iff_forall_not_mem]
    intro f hf
    obtain ⟨d, hd, hsplit, -⟩ := mem_features_iff.1 hf
    obtain ⟨id, hid⟩ := Array.mem_iff_getElem?.1 hd
    obtain ⟨way, hway⟩ := t.exists_way (Array.getElem?_eq_some_iff.1 hid).1
    have hend := isEnd_of_mem_leafIds (mem_leafIds_iff.2 ⟨e, he, hleaf⟩)
    -- no way goes on from a leaf, so the split would be the root
    cases way with
    | nil =>
      obtain rfl : 0 = id := by simpa [Links.follow?] using hway
      obtain rfl := Option.some.inj (he.symm.trans hid)
      rw [hsplit] at hleaf
      cases hleaf
    | cons low way => simp [Links.follow?, hend.child?] at hway

/-- A tree has one leaf more than splits, whatever the numbers of its nodes are. It is less high than
it has leaves, and the leaves fit under its height. A largest tested feature is missing only where
the root is a leaf; otherwise some split that is reached from the root tests it, and no split tests
a larger one. -/
theorem counts_and_largest_feature (t : Tree α) :
    t.size = 2 * t.leafCount - 1 ∧ t.height < t.leafCount ∧ t.leafCount ≤ 2 ^ t.height ∧
      (t.maxFeature? = none ↔ ∃ e, t.arena[0]? = some e ∧ e.isLeaf = true) ∧
      ∀ f : ℕ, t.maxFeature? = some f ↔
        (∃ way id e, t.arena.links.follow? way 0 = some id ∧ t.arena[id]? = some e ∧
          e.isLeaf = false ∧ e.feature = f) ∧
        ∀ e ∈ t.arena, e.isLeaf = false → e.feature ≤ f := by
  refine ⟨?_, ?_, ?_, ?_, fun f => ?_⟩
  · rw [← size_root, ← leafCount_root, ← Node.size_add_one, Nat.add_sub_cancel]
  · rw [← leafCount_root]
    exact t.root.height_lt_leafCount
  · rw [← leafCount_root]
    exact t.root.leafCount_le_two_pow
  · rw [maxFeature?, List.max?_eq_none_iff, features_eq_nil_iff]
  · rw [maxFeature?, List.max?_eq_some_iff, mem_features_iff]
    apply and_congr
    · constructor
      · rintro ⟨e, he, hsplit, rfl⟩
        obtain ⟨id, hid⟩ := Array.mem_iff_getElem?.1 he
        obtain ⟨way, hway⟩ := t.exists_way (Array.getElem?_eq_some_iff.1 hid).1
        exact ⟨way, id, e, hway, hid, hsplit, (Int.toNat_of_nonneg (split_bounds he hsplit).1).symm⟩
      · rintro ⟨way, id, e, -, hid, hsplit, hf⟩
        exact ⟨e, Array.mem_of_getElem? hid, hsplit, by rw [hf, Int.toNat_natCast]⟩
    · constructor
      · intro hmax e he hsplit
        exact Int.toNat_le.1 (hmax _ (mem_features he hsplit))
      · intro hmax g hg
        obtain ⟨e, he, hsplit, rfl⟩ := mem_features_iff.1 hg
        exact Int.toNat_le.2 (hmax e he hsplit)

end Tree

end ClauseTriage
