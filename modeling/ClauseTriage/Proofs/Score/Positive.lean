import ClauseTriage.Proofs.Double.Vanishing
import ClauseTriage.Proofs.Score.Counts

/-!
# Scores above zero

Scores are computed with rounding, but their sum is above zero exactly when a prediction is right:
none of the shares of counts, their means and their sums vanishes in rounding.
-/
namespace ClauseTriage.Confusion

open Double

variable {m : Confusion} {n total t : ℕ} {score : Label → Float}

theorem within_zero : Within t Scalar.zero := Within.of_value_zero zero_finite value_zero

/-- A share is zero only where there is nothing to share. -/
theorem ratio_within (h : n ≤ total) (ht : total < 2 ^ 64) :
    Within 128 (ratio n total : Float) ∧ (value (ratio n total) = 0 ↔ n = 0) := by
  rw [ratio]
  split
  · rename_i hzero
    exact ⟨within_zero, iff_of_true value_zero (Nat.le_zero.1 (hzero ▸ h))⟩
  · rename_i hne
    obtain ⟨hn, hn0⟩ := Within.ofNat (t := 64) (n := n) (by norm_num) (h.trans ht.le)
    obtain ⟨hd, hd0⟩ := Within.ofNat (t := 64) (n := total) (by norm_num) ht.le
    obtain ⟨hratio, hzero⟩ := hn.div hd (mt hd0.1 hne) (by norm_num)
    exact ⟨hratio, hzero.trans hn0⟩

theorem length_present_le (m : Confusion) : m.present.length ≤ 2 := List.length_filter_le _ _

/-- A mean is zero only where each score is. -/
theorem macroMean_within (h : ∀ c ∈ m.present, Within t (score c)) (ht : t + 3 ≤ 1000) :
    Within (t + 3) (m.macroMean score) ∧
      (value (m.macroMean score) = 0 ↔ ∀ c ∈ m.present, value (score c) = 0) := by
  have hlength := m.length_present_le
  rw [macroMean]
  split
  · rename_i hnone
    rw [List.isEmpty_iff.1 hnone]
    exact ⟨within_zero, iff_of_true value_zero (by simp)⟩
  · rename_i hsome
    obtain ⟨hsum, hsum0⟩ := Within.sum (List.forall_mem_map.2 h)
      (by rw [List.length_map]; omega)
    obtain ⟨hcount, hcount0⟩ := Within.ofNat (t := 1) (by norm_num) hlength
    have hne : value (Float.ofNat m.present.length) ≠ 0 := by
      rw [Ne, hcount0, List.length_eq_zero_iff, ← List.isEmpty_iff]
      exact hsome
    obtain ⟨hmean, hmean0⟩ := hsum.div hcount hne (by rw [List.length_map]; omega)
    refine ⟨hmean.mono (by rw [List.length_map]; omega), ?_⟩
    rw [List.forall_mem_map] at hsum0
    exact hmean0.trans hsum0

/-- The scores add up to more than zero when something is right. -/
theorem zero_lt_total_iff (hm : m.total < 2 ^ 64) :
    Scalar.lt Scalar.zero (m.scores : Scores Float).total = true ↔ 0 < m.correct := by
  have hclass := fun c (hc : c ∈ m.present) => (mem_present_iff.1 hc).1
  have hprecision := fun c (hc : c ∈ m.present) =>
    ratio_within (count_le_predictedTotal (hclass c hc))
      ((predictedTotal_le_total (hclass c hc)).trans_lt hm)
  have hrecall := fun c (hc : c ∈ m.present) =>
    ratio_within (count_le_truthTotal (hclass c hc))
      ((truthTotal_le_total (hclass c hc)).trans_lt hm)
  obtain ⟨hmean, hmean0⟩ := macroMean_within (fun c hc => (hprecision c hc).1) (by norm_num)
  obtain ⟨hmean', hmean0'⟩ := macroMean_within (fun c hc => (hrecall c hc).1) (by norm_num)
  obtain ⟨haccuracy, haccuracy0⟩ := ratio_within m.correct_le_total hm
  obtain ⟨hsum, hsum0⟩ := hmean.add hmean' (by norm_num)
  obtain ⟨htotal, htotal0⟩ := hsum.add (haccuracy.mono (by norm_num)) (by norm_num)
  rw [hsum0, hmean0, hmean0', haccuracy0] at htotal0
  change Scalar.lt Scalar.zero (m.macroPrecision + m.macroRecall + m.accuracy : Float) = true ↔ _
  refine htotal.zero_lt_iff.trans ((not_congr (htotal0.trans ?_)).trans Nat.pos_iff_ne_zero.symm)
  constructor
  · exact fun h => h.2
  · intro h
    have hcounts := correct_eq_zero_iff.1 h
    exact ⟨⟨fun c hc => (hprecision c hc).2.2 (hcounts c (hclass c hc)),
      fun c hc => (hrecall c hc).2.2 (hcounts c (hclass c hc))⟩, h⟩

end ClauseTriage.Confusion
