import ClauseTriage.Score.Scores
import Mathlib

/-!
# What a confusion matrix counts

Two lists of classes are compared pair by pair over their common length. The matrix holds how often
each pair occurs, so its total is the number of pairs and its diagonal that of the equal ones.
Exchanging the lists transposes it.
-/
namespace ClauseTriage.Confusion

/-- The counts of a list of pairs of a class and a predicted one. -/
def tally (pairs : List (Label × Label)) : Confusion :=
  pairs.foldl (fun m q => m.add q.1 q.2) {}

/-- Classes and predicted ones exchanged. -/
def transpose (m : Confusion) : Confusion :=
  ⟨⟨m.ofDiscard.discard, m.ofKeep.discard⟩, ⟨m.ofDiscard.keep, m.ofKeep.keep⟩⟩

section Tally

variable {pairs : List (Label × Label)} {truth predicted : List Label} {m : Confusion}

theorem tally_append (pairs : List (Label × Label)) (q : Label × Label) :
    tally (pairs ++ [q]) = (tally pairs).add q.1 q.2 := by
  rw [tally, List.foldl_append]
  rfl

theorem foldlM_add_eq_some_iff {start : Confusion} :
    pairs.foldlM
        (fun m (q : Label × Label) => if q.1 ≤ 1 ∧ q.2 ≤ 1 then some (m.add q.1 q.2) else none)
        start = some m ↔
      (∀ q ∈ pairs, q.1 ≤ 1 ∧ q.2 ≤ 1) ∧ m = pairs.foldl (fun m q => m.add q.1 q.2) start := by
  induction pairs generalizing start with
  | nil => simp [eq_comm]
  | cons q pairs ih =>
    rw [List.foldlM_cons, List.forall_mem_cons, List.foldl_cons]
    split
    · rename_i hq
      rw [Option.bind_eq_bind, Option.bind_some, ih, and_iff_right hq]
    · rename_i hq
      simp [hq]

/-- There is a matrix of two lists when the labels that are compared are classes. -/
theorem ofLists?_eq_some_iff : ofLists? truth predicted = some m ↔
    (∀ q ∈ truth.zip predicted, q.1 ≤ 1 ∧ q.2 ≤ 1) ∧ m = tally (truth.zip predicted) :=
  foldlM_add_eq_some_iff

theorem total_add (m : Confusion) (t p : Label) : (m.add t p).total = m.total + 1 := by
  by_cases ht : t = 0 <;> by_cases hp : p = 0 <;>
    simp [total, truthTotal, count, row, add, bump, ht, hp] <;> omega

theorem correct_add (m : Confusion) {t p : Label} (ht : t ≤ 1) (hp : p ≤ 1) :
    (m.add t p).correct = m.correct + if t = p then 1 else 0 := by
  obtain rfl | rfl := Nat.le_one_iff_eq_zero_or_eq_one.1 ht <;>
    obtain rfl | rfl := Nat.le_one_iff_eq_zero_or_eq_one.1 hp <;>
      simp [correct, count, row, add, bump] <;> omega

theorem total_tally (pairs : List (Label × Label)) : (tally pairs).total = pairs.length := by
  induction pairs using List.reverseRecOn with
  | nil => rfl
  | append_singleton pairs q ih =>
    rw [tally_append, total_add, ih, List.length_append, List.length_singleton]

theorem correct_tally (h : ∀ q ∈ pairs, q.1 ≤ 1 ∧ q.2 ≤ 1) :
    (tally pairs).correct = pairs.countP fun q => q.1 = q.2 := by
  induction pairs using List.reverseRecOn with
  | nil => rfl
  | append_singleton pairs q ih =>
    obtain ⟨hpairs, hq⟩ := List.forall_mem_append.1 h
    obtain ⟨htruth, hpredicted⟩ := hq q (List.mem_singleton_self q)
    rw [tally_append, correct_add _ htruth hpredicted, ih hpairs, List.countP_append,
      List.countP_singleton]
    simp

end Tally

section Transpose

variable (m : Confusion)

@[simp] theorem count_transpose (t p : Label) : m.transpose.count t p = m.count p t := by
  by_cases ht : t = 0 <;> by_cases hp : p = 0 <;> simp [count, row, transpose, ht, hp]

theorem transpose_add (t p : Label) : (m.add t p).transpose = m.transpose.add p t := by
  by_cases ht : t = 0 <;> by_cases hp : p = 0 <;> simp [transpose, add, bump, ht, hp]

theorem tally_swap (pairs : List (Label × Label)) :
    tally (pairs.map Prod.swap) = (tally pairs).transpose := by
  induction pairs using List.reverseRecOn with
  | nil => rfl
  | append_singleton pairs q ih =>
    rw [List.map_append, List.map_singleton, tally_append, tally_append, ih, transpose_add]
    rfl

@[simp] theorem truthTotal_transpose (c : Label) :
    m.transpose.truthTotal c = m.predictedTotal c := by
  simp [truthTotal, predictedTotal]

@[simp] theorem predictedTotal_transpose (c : Label) :
    m.transpose.predictedTotal c = m.truthTotal c := by
  simp [truthTotal, predictedTotal]

@[simp] theorem present_transpose : m.transpose.present = m.present := by
  simp only [present, truthTotal_transpose, predictedTotal_transpose, Bool.or_comm]

@[simp] theorem total_transpose : m.transpose.total = m.total := by
  simp only [total, truthTotal, count_transpose]
  omega

@[simp] theorem correct_transpose : m.transpose.correct = m.correct := by
  simp only [correct, count_transpose]

/-- Exchanging classes and predictions exchanges precision and recall. -/
theorem scores_transpose {α : Type} [Scalar α] :
    (m.transpose.scores : Scores α) = ⟨m.macroRecall, m.macroPrecision, m.accuracy⟩ := by
  simp [scores, macroPrecision, macroRecall, accuracy, macroMean]

end Transpose

section Counts

variable {m : Confusion} {c : Label}

theorem mem_present_iff :
    c ∈ m.present ↔ c ≤ 1 ∧ (0 < m.truthTotal c ∨ 0 < m.predictedTotal c) := by
  simp [present, Nat.le_one_iff_eq_zero_or_eq_one]

theorem count_le_truthTotal (hc : c ≤ 1) : m.count c c ≤ m.truthTotal c := by
  obtain rfl | rfl := Nat.le_one_iff_eq_zero_or_eq_one.1 hc
  · exact Nat.le_add_right _ _
  · exact Nat.le_add_left _ _

theorem count_le_predictedTotal (hc : c ≤ 1) : m.count c c ≤ m.predictedTotal c := by
  obtain rfl | rfl := Nat.le_one_iff_eq_zero_or_eq_one.1 hc
  · exact Nat.le_add_right _ _
  · exact Nat.le_add_left _ _

theorem truthTotal_le_total (hc : c ≤ 1) : m.truthTotal c ≤ m.total := by
  obtain rfl | rfl := Nat.le_one_iff_eq_zero_or_eq_one.1 hc
  · exact Nat.le_add_right _ _
  · exact Nat.le_add_left _ _

theorem predictedTotal_le_total (hc : c ≤ 1) : m.predictedTotal c ≤ m.total := by
  rw [← truthTotal_transpose, ← total_transpose]
  exact truthTotal_le_total hc

theorem correct_le_total (m : Confusion) : m.correct ≤ m.total := by
  simp only [correct, total, truthTotal]
  omega

/-- Nothing is right when nothing of either class is. -/
theorem correct_eq_zero_iff : m.correct = 0 ↔ ∀ c ≤ 1, m.count c c = 0 := by
  simp only [correct, Nat.add_eq_zero_iff, Nat.le_one_iff_eq_zero_or_eq_one, forall_eq_or_imp,
    forall_eq]

/-- Where everything is right, the rows of a class are those that are taken for it. -/
theorem totals_of_correct (h : m.correct = m.total) (hc : c ≤ 1) :
    m.truthTotal c = m.count c c ∧ m.predictedTotal c = m.count c c := by
  simp only [correct, total, truthTotal] at h
  obtain rfl | rfl := Nat.le_one_iff_eq_zero_or_eq_one.1 hc
  · simp only [truthTotal, predictedTotal]
    omega
  · simp only [truthTotal, predictedTotal]
    omega

theorem present_ne_nil (h : 0 < m.total) : m.present ≠ [] := by
  intro hnil
  have hnone : ∀ c ≤ 1, m.truthTotal c = 0 := by
    intro c hc
    by_contra hpos
    exact List.not_mem_nil (hnil ▸ mem_present_iff.2 ⟨hc, .inl (Nat.pos_of_ne_zero hpos)⟩)
  rw [total, hnone 0 (Nat.zero_le 1), hnone 1 le_rfl] at h
  exact h.ne rfl

end Counts

end ClauseTriage.Confusion
