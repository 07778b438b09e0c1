import ClauseTriage.Proofs.Score.Counts

/-!
# The range of the scores

Over exact fractions precision, recall and accuracy are between zero and one. They add up to three
when there is something to compare and all of it is right, and to zero when none of it is.
-/
namespace ClauseTriage.Confusion

section Ratio

variable {n total : ℕ}

theorem ratio_eq_div (n total : ℕ) : (ratio n total : ℚ) = n / total := by
  rw [ratio]
  split
  · rename_i h
    rw [h, Nat.cast_zero, div_zero]
    rfl
  · rfl

theorem ratio_nonneg (n total : ℕ) : (0 : ℚ) ≤ ratio n total := by
  rw [ratio_eq_div]
  positivity

theorem ratio_le_one (h : n ≤ total) : (ratio n total : ℚ) ≤ 1 := by
  rw [ratio_eq_div]
  exact div_le_one_of_le₀ (by exact_mod_cast h) (Nat.cast_nonneg total)

theorem ratio_eq_one_iff : (ratio n total : ℚ) = 1 ↔ n = total ∧ 0 < total := by
  rw [ratio_eq_div, Nat.pos_iff_ne_zero]
  by_cases hzero : total = 0
  · simp [hzero]
  · rw [div_eq_one_iff_eq (Nat.cast_ne_zero.2 hzero), Nat.cast_inj, and_iff_left hzero]

theorem ratio_eq_zero_iff (h : n ≤ total) : (ratio n total : ℚ) = 0 ↔ n = 0 := by
  rw [ratio_eq_div, div_eq_zero_iff, Nat.cast_eq_zero, Nat.cast_eq_zero]
  omega

end Ratio

section Mean

variable {m : Confusion} {score : Label → ℚ}

theorem macroMean_eq_div (m : Confusion) (score : Label → ℚ) :
    m.macroMean score = (m.present.map score).sum / m.present.length := by
  rw [macroMean, List.sum_eq_foldl]
  split
  · rename_i h
    rw [List.isEmpty_iff.1 h, List.length_nil, Nat.cast_zero, div_zero]
    rfl
  · rfl

theorem macroMean_nonneg (h : ∀ c ∈ m.present, 0 ≤ score c) : 0 ≤ m.macroMean score := by
  rw [macroMean_eq_div]
  exact div_nonneg (List.sum_nonneg (List.forall_mem_map.2 h)) (Nat.cast_nonneg _)

theorem macroMean_le_one (h : ∀ c ∈ m.present, score c ≤ 1) : m.macroMean score ≤ 1 := by
  rw [macroMean_eq_div]
  refine div_le_one_of_le₀ ?_ (Nat.cast_nonneg _)
  simpa using List.sum_le_card_nsmul (m.present.map score) 1 (List.forall_mem_map.2 h)

/-- The mean of equal scores is that score. -/
theorem macroMean_eq {x : ℚ} (hpresent : m.present ≠ []) (h : ∀ c ∈ m.present, score c = x) :
    m.macroMean score = x := by
  have hlength : (m.present.length : ℚ) ≠ 0 := by simpa using hpresent
  rw [macroMean_eq_div, List.sum_eq_card_nsmul _ x (List.forall_mem_map.2 h), List.length_map,
    nsmul_eq_mul, mul_div_cancel_left₀ x hlength]

theorem macroMean_eq_zero (h : ∀ c ∈ m.present, score c = 0) : m.macroMean score = 0 := by
  rw [macroMean_eq_div, List.sum_eq_zero (List.forall_mem_map.2 h), zero_div]

end Mean

section Scores

variable (m : Confusion)

/-- Each score is between zero and one. -/
theorem scores_mem : (m.macroPrecision : ℚ) ∈ Set.Icc 0 1 ∧ (m.macroRecall : ℚ) ∈ Set.Icc 0 1 ∧
    (m.accuracy : ℚ) ∈ Set.Icc 0 1 := by
  have hclass : ∀ c ∈ m.present, c ≤ 1 := fun c hc => (mem_present_iff.1 hc).1
  refine ⟨⟨?_, ?_⟩, ⟨?_, ?_⟩, ratio_nonneg _ _, ratio_le_one m.correct_le_total⟩
  · exact macroMean_nonneg fun c _ => ratio_nonneg _ _
  · exact macroMean_le_one fun c hc => ratio_le_one (count_le_predictedTotal (hclass c hc))
  · exact macroMean_nonneg fun c _ => ratio_nonneg _ _
  · exact macroMean_le_one fun c hc => ratio_le_one (count_le_truthTotal (hclass c hc))

/-- The scores add up to three when there is something to predict and all of it is right. -/
theorem total_eq_three_iff :
    (m.scores : Scores ℚ).total = 3 ↔ 0 < m.total ∧ m.correct = m.total := by
  obtain ⟨hprecision, hrecall, haccuracy⟩ := m.scores_mem
  constructor
  · intro h
    have hone : (m.accuracy : ℚ) = 1 := by
      change (m.macroPrecision : ℚ) + m.macroRecall + m.accuracy = 3 at h
      linarith [hprecision.2, hrecall.2, haccuracy.2]
    obtain ⟨hall, hpos⟩ := ratio_eq_one_iff.1 hone
    exact ⟨hpos, hall⟩
  · rintro ⟨hpos, hall⟩
    have hpresent := present_ne_nil hpos
    have htotals : ∀ c ∈ m.present, m.truthTotal c = m.count c c ∧
        m.predictedTotal c = m.count c c ∧ 0 < m.count c c := by
      intro c hc
      obtain ⟨hclass, hsome⟩ := mem_present_iff.1 hc
      obtain ⟨htruth, hpredicted⟩ := totals_of_correct hall hclass
      exact ⟨htruth, hpredicted, by omega⟩
    have hmean : (m.macroPrecision : ℚ) = 1 := macroMean_eq hpresent fun c hc => by
      obtain ⟨-, hpredicted, hsome⟩ := htotals c hc
      exact ratio_eq_one_iff.2 ⟨hpredicted.symm, hpredicted ▸ hsome⟩
    have hmean' : (m.macroRecall : ℚ) = 1 := macroMean_eq hpresent fun c hc => by
      obtain ⟨htruth, -, hsome⟩ := htotals c hc
      exact ratio_eq_one_iff.2 ⟨htruth.symm, htruth ▸ hsome⟩
    have hone : (m.accuracy : ℚ) = 1 := ratio_eq_one_iff.2 ⟨hall, hpos⟩
    change (m.macroPrecision : ℚ) + m.macroRecall + m.accuracy = 3
    rw [hmean, hmean', hone]
    norm_num

/-- The scores add up to zero when nothing is right. -/
theorem total_eq_zero_iff : (m.scores : Scores ℚ).total = 0 ↔ m.correct = 0 := by
  obtain ⟨hprecision, hrecall, haccuracy⟩ := m.scores_mem
  change (m.macroPrecision : ℚ) + m.macroRecall + m.accuracy = 0 ↔ _
  constructor
  · intro h
    refine (ratio_eq_zero_iff m.correct_le_total).1 ?_
    change (m.accuracy : ℚ) = 0
    linarith [hprecision.1, hrecall.1, haccuracy.1]
  · intro h
    have hcounts := correct_eq_zero_iff.1 h
    have hzero : ∀ c ∈ m.present, ∀ n, (ratio (m.count c c) n : ℚ) = 0 := by
      intro c hc n
      rw [hcounts c (mem_present_iff.1 hc).1, ratio_eq_div, Nat.cast_zero, zero_div]
    have hmean : (m.macroPrecision : ℚ) = 0 := macroMean_eq_zero fun c hc => hzero c hc _
    have hmean' : (m.macroRecall : ℚ) = 0 := macroMean_eq_zero fun c hc => hzero c hc _
    have hnone : (m.accuracy : ℚ) = 0 := (ratio_eq_zero_iff m.correct_le_total).2 h
    rw [hmean, hmean', hnone]
    norm_num

end Scores

end ClauseTriage.Confusion
