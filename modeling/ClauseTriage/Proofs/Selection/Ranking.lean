import ClauseTriage.Proofs.Double.TotalOrder
import ClauseTriage.Selection.Ranking

/-!
# What a ranking keeps

Features with their columns are in a strict total order: by importance in the total order of words,
the largest first, and by column where importances are equal. So there is one list of all of them in
that order, and a ranking is the beginning of it.
-/
namespace ClauseTriage.Ranking

/-- A larger importance, or an equal one in an earlier column. -/
def Outranks (a b : (String × Importance) × ℕ) : Prop :=
  b.1.2.Below a.1.2 ∨ a.1.2 = b.1.2 ∧ a.2 < b.2

/-- All features with their columns, each before those that it outranks. -/
def ordered (names : List String) (importances : List Importance) :
    List ((String × Importance) × ℕ) :=
  (names.zip importances).zipIdx.mergeSort (List.zipIdxLE notAfter)

section Order

variable {a b : (String × Importance) × ℕ}

theorem notAfter_trans (a b c : String × Importance) (h : notAfter a b = true)
    (h' : notAfter b c = true) : notAfter a c = true := by
  rw [notAfter, decide_eq_true_iff] at *
  exact h'.trans h

theorem notAfter_total (a b : String × Importance) : (notAfter a b || notAfter b a) = true := by
  rw [Bool.or_eq_true, notAfter, notAfter, decide_eq_true_iff, decide_eq_true_iff]
  exact le_total _ _

theorem outranks_iff : Outranks a b ↔
    b.1.2.key < a.1.2.key ∨ a.1.2.key = b.1.2.key ∧ a.2 < b.2 := by
  rw [Outranks, Importance.below_iff_key_lt, Importance.key_injective.eq_iff]

theorem Outranks.asymm (h : Outranks a b) : ¬Outranks b a := by
  rw [outranks_iff] at *
  omega

/-- A stable sort leaves features of different columns in this order. -/
theorem outranks_of_zipIdxLE (h : List.zipIdxLE notAfter a b = true) (hne : a.2 ≠ b.2) :
    Outranks a b := by
  rw [outranks_iff]
  simp only [List.zipIdxLE, notAfter, decide_eq_true_eq] at h
  split at h
  · split at h
    · have hcolumns := of_decide_eq_true h
      omega
    · omega
  · cases h

end Order

section Ordered

variable {names : List String} {importances : List Importance}
  {other : List ((String × Importance) × ℕ)}

theorem ordered_perm : (ordered names importances).Perm (names.zip importances).zipIdx :=
  List.mergeSort_perm _ _

/-- No two features share a column. -/
theorem columns_ne (h : other.Perm (names.zip importances).zipIdx) :
    other.Pairwise (·.2 ≠ ·.2) := by
  have hnodup : (other.map Prod.snd).Nodup := by
    rw [(h.map Prod.snd).nodup_iff, List.zipIdx_map_snd]
    exact List.nodup_range'
  exact List.pairwise_map.1 hnodup

theorem pairwise_ordered : (ordered names importances).Pairwise Outranks := by
  have hsorted := List.pairwise_mergeSort (List.zipIdxLE_trans notAfter_trans)
    (List.zipIdxLE_total notAfter_total) (names.zip importances).zipIdx
  exact (hsorted.and (columns_ne ordered_perm)).imp fun h => outranks_of_zipIdxLE h.1 h.2

/-- The features are in that order in one list only. -/
theorem eq_ordered (hperm : other.Perm (names.zip importances).zipIdx)
    (hsorted : other.Pairwise Outranks) : other = ordered names importances :=
  List.Perm.eq_of_pairwise (fun _ _ _ _ hab hba => absurd hba hab.asymm) hsorted pairwise_ordered
    (hperm.trans ordered_perm.symm)

theorem ofImportances_eq_take (names : List String) (importances : List Importance) (top : ℕ) :
    ofImportances names importances top = ((ordered names importances).map Prod.fst).take top := by
  rw [ofImportances, ordered, List.mergeSort_zipIdx]

end Ordered

/-- A ranking keeps as many features as it is asked for, or all of them. They are the first of the one
list that holds every feature once, each before all that it outranks: so no feature that is left out
outranks one that is kept, and a shorter ranking is the beginning of a longer one. -/
theorem ofImportances_first (names : List String) (importances : List Importance) :
    ∃ all : List ((String × Importance) × ℕ),
      (all.Perm (names.zip importances).zipIdx ∧ all.Pairwise Outranks) ∧
      (∀ other : List ((String × Importance) × ℕ), other.Perm (names.zip importances).zipIdx →
        other.Pairwise Outranks → other = all) ∧
      ∀ top,
        ofImportances names importances top = (all.map Prod.fst).take top ∧
        (ofImportances names importances top).length =
          min top (min names.length importances.length) ∧
        (∀ kept ∈ all.take top, ∀ omitted ∈ all.drop top,
          Outranks kept omitted ∧ ¬Outranks omitted kept) ∧
        ∀ more, top ≤ more →
          ofImportances names importances top <+: ofImportances names importances more := by
  refine ⟨ordered names importances, ⟨ordered_perm, pairwise_ordered⟩, fun _ => eq_ordered,
    fun top => ⟨ofImportances_eq_take names importances top, ?_, ?_, ?_⟩⟩
  · rw [ofImportances, List.length_take, List.length_mergeSort, List.length_zip]
  · intro kept hkept omitted homitted
    have hsplit : (ordered names importances).Pairwise Outranks := pairwise_ordered
    rw [← List.take_append_drop top (ordered names importances), List.pairwise_append] at hsplit
    have houtranks := hsplit.2.2 kept hkept omitted homitted
    exact ⟨houtranks, houtranks.asymm⟩
  · intro more hmore
    rw [ofImportances, ofImportances]
    exact List.take_prefix_take_left hmore

end ClauseTriage.Ranking
