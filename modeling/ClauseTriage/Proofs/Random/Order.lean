import ClauseTriage.Proofs.Random.Range
import ClauseTriage.Random.Draw

/-!
# Random orders and samples

A shuffle exchanges entries and does nothing else, so it gives a permutation. A sample below a size
holds numbers below it.
-/
namespace ClauseTriage.Random

variable {α : Type}

theorem swapIfInBounds_perm (xs : Array α) (i j : ℕ) : (xs.swapIfInBounds i j).Perm xs := by
  rw [Array.swapIfInBounds_def]
  split
  · split
    · exact Array.swap_perm _ _
    · exact .refl xs
  · exact .refl xs

theorem shuffleFrom_perm (last : ℕ) (xs : Array α) (s : Stream) :
    (shuffleFrom last xs s).1.Perm xs := by
  induction last generalizing xs s with
  | zero => exact .refl xs
  | succ last ih => exact (ih _ _).trans (swapIfInBounds_perm _ _ _)

theorem shuffled_perm (seed : UInt64) (xs : List α) : (shuffled seed xs).Perm xs :=
  Array.perm_iff_toList_perm.1 (shuffleFrom_perm _ xs.toArray _)

theorem selectInPlace_perm (size count i : ℕ) (xs : Array ℕ) (s : Stream) :
    (selectInPlace size count i xs s).1.Perm xs := by
  induction count generalizing i xs s with
  | zero => exact .refl xs
  | succ count ih => exact (ih _ _ _).trans (swapIfInBounds_perm _ _ _)

/-- One draw: the number or, where it was drawn before, the position. -/
theorem selectFloyd_cons (j : ℕ) (rest picked : List ℕ) (s : Stream) :
    selectFloyd (j :: rest) picked s =
      match picked.idxOf? (below32 (j + 1) s).1 with
      | some place => selectFloyd rest (picked.insertIdx place j) (below32 (j + 1) s).2
      | none => selectFloyd rest (picked ++ [(below32 (j + 1) s).1]) (below32 (j + 1) s).2 := by
  change (match picked.idxOf? (below32 (j + 1) s).1 with
    | some place => selectFloyd rest (picked.insertIdx place j)
    | none => selectFloyd rest (picked ++ [(below32 (j + 1) s).1]) : Draw (List ℕ))
    (below32 (j + 1) s).2 = _
  cases picked.idxOf? (below32 (j + 1) s).1 <;> rfl

theorem selectFloyd_lt {size : ℕ} {positions picked : List ℕ}
    (hpositions : ∀ j ∈ positions, j < size) (hpicked : ∀ i ∈ picked, i < size) (s : Stream) :
    ∀ i ∈ (selectFloyd positions picked s).1, i < size := by
  induction positions generalizing picked s with
  | nil => exact hpicked
  | cons j positions ih =>
    obtain ⟨hj, hrest⟩ := List.forall_mem_cons.1 hpositions
    rw [selectFloyd_cons]
    split
    · rename_i place hplace
      apply ih hrest
      intro i hi
      rcases List.eq_or_mem_of_mem_insertIdx hi with rfl | hi
      · exact hj
      · exact hpicked i hi
    · apply ih hrest
      intro i hi
      rcases List.mem_append.1 hi with hi | hi
      · exact hpicked i hi
      · obtain rfl := List.mem_singleton.1 hi
        exact (below32_lt (Nat.succ_pos j) s).trans_le hj

/-- The numbers of a sample are below its size. -/
theorem sample_lt {size count : ℕ} (h : count ≤ size) (s : Stream) :
    ∀ i ∈ (sample size count s).1, i < size := by
  intro i hi
  unfold sample at hi
  split at hi
  · have hi : i ∈ (selectInPlace size count 0 (Array.range size) s).1.toList.take count := hi
    have hperm := Array.perm_iff_toList_perm.1 (selectInPlace_perm size count 0 (.range size) s)
    simpa using hperm.subset (List.mem_of_mem_take hi)
  · refine selectFloyd_lt ?_ (by simp) s i hi
    intro j hj
    have := List.mem_range'_1.1 hj
    omega

end ClauseTriage.Random
