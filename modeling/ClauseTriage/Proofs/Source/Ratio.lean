import ClauseTriage.Code.Literal
import ClauseTriage.Proofs.Decimal.Fixed

/-!
# The ratio of a leaf

A weight is written in tenths and read back as the double nearest to them. Counts are read back as
they were, so a leaf of counts votes keep exactly when keep is its heavier class.
-/
namespace ClauseTriage

open Decimal Code Double

variable {x : Float} {b : Binary}

theorem oneDecimal_eq (hb : magnitude x = .finite b) :
    oneDecimal x = Parts.toFloat ⟨b.negative, b.units 1, -1⟩ := by
  rw [oneDecimal, readChars?_fixedChars one_pos hb, Option.getD_some]
  rfl

theorem size_tenths (negative : Bool) (n : ℕ) : Parts.size ⟨negative, n, -1⟩ = n / 10 := by
  rw [Parts.size, zpow_neg_one, div_eq_mul_inv]

theorem abs_value_eq_size (hb : magnitude x = .finite b) : |value x| = b.size := by
  rw [value_of_magnitude hb, abs_signed]
  exact abs_of_nonneg b.size_nonneg

theorem nearest_tenths (b : Binary) : Nearest (10 * b.size) (b.units 1) := by
  have := b.nearest_units 1
  rwa [pow_one, mul_comm] at this

/-- A double whose tenths lie in its own interval is read back as it was. -/
theorem oneDecimal_of_roundsTo (hb : magnitude x = .finite b) (hne : b.mantissa ≠ 0)
    (h : RoundsTo b.mantissa b.exponent (b.units 1 / 10)) : oneDecimal x = x := by
  obtain ⟨hc, he⟩ := canonical_of_magnitude hb
  rw [← size_tenths b.negative] at h
  apply ext_unpack
  rw [oneDecimal_eq hb, Parts.unpack_toFloat h hc he (Nat.pos_of_ne_zero hne), unpack_toModel x, hb,
    unpacked, dif_neg hne]

/-- Zeros are read back with their signs. -/
theorem oneDecimal_of_zero (hb : magnitude x = .finite b) (hzero : b.mantissa = 0) :
    oneDecimal x = x := by
  have hsize : b.size = (0 : ℕ) := by rw [Binary.size, hzero, Nat.cast_zero, zero_mul]
  have hunits : b.units 1 = 0 := by rw [Binary.units_of_size hsize, Nat.zero_mul]
  apply ext_unpack
  rw [oneDecimal_eq hb, Parts.toFloat_zero hunits, unpack_toModel x, hb, unpacked, dif_pos hzero]

theorem Double.IsCount.size_eq (h : IsCount x) (hb : magnitude x = .finite b) :
    ∃ n : ℕ, b.size = n := by
  obtain ⟨n, -, hvalue⟩ := h.value_eq
  refine ⟨n, ?_⟩
  rw [← abs_value_eq_size hb, hvalue]
  exact Nat.abs_cast n

/-- A count with one decimal is read back as it was. -/
theorem oneDecimal_of_isCount (h : IsCount x) : oneDecimal x = x := by
  obtain ⟨b, hb⟩ := isFinite_iff.1 h.isFinite
  by_cases hzero : b.mantissa = 0
  · exact oneDecimal_of_zero hb hzero
  · obtain ⟨n, hsize⟩ := h.size_eq hb
    have htenths : (b.units 1 / 10 : ℚ) = b.mantissa * 2 ^ b.exponent := by
      rw [Binary.units_of_size hsize, Nat.cast_mul, cast_pow10, pow_one,
        mul_div_cancel_right₀ _ (by norm_num), ← hsize, Binary.size]
    exact oneDecimal_of_roundsTo hb hzero (htenths ▸ RoundsTo.self _ _)

theorem heavier_eq_one_iff {w : Weights Float} (hdiscard : w.discard.isFinite = true)
    (hkeep : w.keep.isFinite = true) : w.heavier = 1 ↔ value w.discard < value w.keep := by
  have hlt : Scalar.lt w.discard w.keep = true ↔ value w.discard < value w.keep := by
    rw [← lt_iff hdiscard hkeep]
    exact decide_eq_true_iff
  rw [← hlt, Weights.heavier]
  split <;> simp_all

/-- The ratio of a leaf is below one exactly when more is read of its keep weight. -/
theorem leafRatio_lt_one_iff {w : Weights Float} (hdiscard : (oneDecimal w.discard).isFinite = true)
    (hkeep : (oneDecimal w.keep).isFinite = true) (hdiscard0 : 0 ≤ value (oneDecimal w.discard))
    (hkeep0 : 0 ≤ value (oneDecimal w.keep)) :
    leafRatio w < 1.0 ↔ value (oneDecimal w.discard) < value (oneDecimal w.keep) := by
  have hzero : (oneDecimal w.keep == 0.0) = true ↔ value (oneDecimal w.keep) = 0 := by
    rw [beq_iff hkeep zero_finite, value_zero]
  rw [leafRatio]
  split
  · rename_i hnone
    rw [lt_iff one_finite one_finite, hzero.1 hnone]
    exact iff_of_false (lt_irrefl _) hdiscard0.not_gt
  · rename_i hsome
    exact div_lt_one_iff hdiscard hkeep hdiscard0 (hkeep0.lt_of_ne' (mt hzero.2 hsome))

/-- Where both weights are counts, the ratio of a leaf is below one exactly when keep is the heavier
class. -/
theorem votesKeep_iff {w : Weights Float} (hdiscard : IsCount w.discard) (hkeep : IsCount w.keep) :
    votesKeep w = true ↔ w.heavier = 1 := by
  have hnonneg {x : Float} (hx : IsCount x) : 0 ≤ value x := by
    obtain ⟨n, -, hvalue⟩ := hx.value_eq
    exact hvalue ▸ Nat.cast_nonneg n
  have hratio := leafRatio_lt_one_iff (w := w)
  rw [oneDecimal_of_isCount hdiscard, oneDecimal_of_isCount hkeep] at hratio
  rw [votesKeep, decide_eq_true_iff, heavier_eq_one_iff hdiscard.isFinite hkeep.isFinite]
  exact hratio hdiscard.isFinite hkeep.isFinite (hnonneg hdiscard) (hnonneg hkeep)

end ClauseTriage
