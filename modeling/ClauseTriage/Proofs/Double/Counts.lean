import ClauseTriage.Proofs.Double.Arithmetic
import ClauseTriage.Scalar

/-!
# Counts as doubles

A whole number below `2 ^ 53` is a double. A quotient of such doubles is below one exactly when the
dividend is below the divisor, rounding or not.
-/
namespace ClauseTriage.Double

open Float.Model Float.Model.UnpackedFloat
open Decimal (magnitude)

/-- A double that equals a count, of either sign where the count is zero. -/
def IsCount (x : Float) : Prop := ∃ n < 2 ^ 53, Scalar.eq x (Scalar.ofNat n) = true

variable {x y : Float}

theorem le_unpack : x ≤ y ↔ x.toModel.unpack.le y.toModel.unpack = true := decide_eq_true_iff

/-- What equals a finite double is finite. -/
theorem isFinite_of_eq (hy : y.isFinite = true) (h : Scalar.eq x y = true) :
    x.isFinite = true := by
  obtain ⟨hle, hge⟩ := Bool.and_eq_true_iff.1 h
  have hle := le_unpack.1 (of_decide_eq_true hle)
  have hge := le_unpack.1 (of_decide_eq_true hge)
  rw [isFinite_unpack] at hy ⊢
  generalize x.toModel.unpack = u at *
  generalize y.toModel.unpack = v at *
  cases u with
  | notANumber => cases hle
  | infinity s =>
    cases v with
    | notANumber => cases hy
    | infinity s' => cases hy
    | zero s' => cases s <;> simp [UnpackedFloat.le, UnpackedFloat.compare] at hle hge
    | finite s' n f hn => cases s <;> simp [UnpackedFloat.le, UnpackedFloat.compare] at hle hge
  | zero s => rfl
  | finite s m e hm => rfl

theorem value_of_eq (hy : y.isFinite = true) (h : Scalar.eq x y = true) : value x = value y := by
  have hx := isFinite_of_eq hy h
  obtain ⟨hle, hge⟩ := Bool.and_eq_true_iff.1 h
  exact le_antisymm ((le_iff hx hy).1 (of_decide_eq_true hle))
    ((le_iff hy hx).1 (of_decide_eq_true hge))

/-- The double of a count has its value. -/
theorem ofNat_value {n : ℕ} (hn : n < 2 ^ 53) :
    (Float.ofNat n).isFinite = true ∧ value (Float.ofNat n) = n := by
  rcases Nat.eq_zero_or_pos n with rfl | hpos
  · have hzero : (Float.ofNat 0).toModel.unpack = .zero .positive := unpack_zero
    rw [isFinite_unpack, value, hzero]
    exact ⟨rfl, Nat.cast_zero.symm⟩
  · obtain ⟨k, f, hk, -, hvalue, hunpack⟩ := unpack_toFloat hpos hn
    obtain ⟨hc, hf⟩ : Canonical k f ∧ f ≤ 971 := by
      have := fits_unpack n.toUInt64.toFloat
      rwa [hunpack] at this
    have hread : (Float.ofNat n).toModel.unpack = .finite .positive k f hk := by
      apply unpack_ofScientific _ hc hf hk
      rw [if_neg Bool.false_ne_true, Nat.cast_zero, zpow_zero, mul_one, ← hvalue]
      exact RoundsTo.self k f
    rw [isFinite_unpack, value, hread]
    exact ⟨rfl, hvalue⟩

theorem IsCount.isFinite (h : IsCount x) : x.isFinite = true := by
  obtain ⟨n, hn, heq⟩ := h
  exact isFinite_of_eq (ofNat_value hn).1 heq

theorem IsCount.value_eq (h : IsCount x) : ∃ n < 2 ^ 53, value x = (n : ℕ) := by
  obtain ⟨n, hn, heq⟩ := h
  obtain ⟨hfinite, hvalue⟩ := ofNat_value hn
  exact ⟨n, hn, (value_of_eq hfinite heq).trans hvalue⟩

/-- The quotient of a double and a larger one is at most the last double below one. -/
theorem size_div_le {m n : ℕ} {e f : ℤ} (hm : Canonical m e) (hn : Canonical n f)
    (h : (m * 2 ^ e : ℚ) < n * 2 ^ f) :
    (m * 2 ^ e / (n * 2 ^ f) : ℚ) ≤ (2 ^ 53 - 1 : ℕ) * 2 ^ (-53 : ℤ) := by
  have hpos := two_zpow_pos e
  have hpos' := two_zpow_pos f
  have hsize : (0 : ℚ) ≤ m * 2 ^ e := mul_nonneg (Nat.cast_nonneg m) hpos.le
  rw [div_le_iff₀ (hsize.trans_lt h)]
  have hmax : (m : ℚ) ≤ 2 ^ 53 - 1 := by
    have : m + 1 ≤ 2 ^ 53 := hm.below
    have : (m : ℚ) + 1 ≤ 2 ^ 53 := by exact_mod_cast this
    linarith
  have hlast : ((2 ^ 53 - 1 : ℕ) : ℚ) = 2 ^ 53 - 1 := by norm_num
  rw [hlast]
  rcases lt_trichotomy e f with hef | rfl | hef
  · have hfull : (2 ^ 52 : ℚ) ≤ n := by
      have hleast := hm.least
      exact_mod_cast hn.full.resolve_left (by omega)
    have hstep : (2 : ℚ) ^ e ≤ 2 ^ f / 2 := by
      rw [div_eq_mul_inv, ← zpow_sub_one₀ (by norm_num)]
      exact zpow_le_zpow_right₀ (by norm_num) (by omega)
    calc (m * 2 ^ e : ℚ) ≤ (2 ^ 53 - 1) * (2 ^ f / 2) := by gcongr
      _ = (2 ^ 53 - 1) * 2 ^ (-53 : ℤ) * (2 ^ 52 * 2 ^ f) := by
        norm_num
        ring
      _ ≤ (2 ^ 53 - 1) * 2 ^ (-53 : ℤ) * (n * 2 ^ f) := by gcongr
  · have hmn : m + 1 ≤ n := by
      have : (m : ℚ) < n := lt_of_mul_lt_mul_right h hpos.le
      exact_mod_cast this
    have hmn' : (m : ℚ) + 1 ≤ n := by exact_mod_cast hmn
    have hone : (n : ℚ) * 2 ^ (-53 : ℤ) ≤ 1 := by
      rw [zpow_neg, ← div_eq_mul_inv, div_le_one (by positivity)]
      exact_mod_cast hn.below.le
    have hsplit : ((2 ^ 53 - 1) * 2 ^ (-53 : ℤ) * (n * 2 ^ e) : ℚ) =
        (n - n * 2 ^ (-53 : ℤ)) * 2 ^ e := by
      norm_num
      ring
    rw [hsplit]
    exact mul_le_mul_of_nonneg_right (by linarith) hpos.le
  · exact absurd (hn.lt_of_exponent_lt hm hef) h.not_gt

theorem zero_finite : (0.0 : Float).isFinite = true := by
  rw [isFinite_unpack, unpack_zero]
  rfl

theorem value_zero : value 0.0 = 0 := by
  rw [value, unpack_zero]
  rfl

theorem canonical_one : Canonical (2 ^ 52) (-52) := ⟨by decide, by decide, .inr le_rfl⟩

theorem size_one : ((2 ^ 52 : ℕ) * 2 ^ (-52 : ℤ) : ℚ) = 1 := by norm_num

theorem unpack_one : (1.0 : Float).toModel.unpack = .finite .positive (2 ^ 52) (-52) (by decide) := by
  rw [unpack_toModel, show magnitude 1.0 = .finite ⟨false, 2 ^ 52, -52⟩ by decide +kernel]
  rfl

theorem one_finite : (1.0 : Float).isFinite = true := by
  rw [isFinite_unpack, unpack_one]
  rfl

theorem value_one : value 1.0 = 1 := by
  rw [value, unpack_one]
  exact size_one

theorem eq_size_of_nonneg (hx : 0 ≤ value x) :
    ∃ m e, Canonical m e ∧ e ≤ 971 ∧ value x = m * 2 ^ e := by
  obtain ⟨s, m, e, hc, he, hvalue⟩ := number_eq_signed (fits_unpack x)
  rw [value, hvalue] at hx ⊢
  cases s with
  | positive => exact ⟨m, e, hc, he, rfl⟩
  | negative =>
    have hsize : (0 : ℚ) ≤ m * 2 ^ e := mul_nonneg (Nat.cast_nonneg m) (two_zpow_pos e).le
    refine ⟨m, e, hc, he, ?_⟩
    rw [signed] at hx ⊢
    linarith

theorem unpack_of_value_pos (hx : 0 < value x) :
    ∃ m e, ∃ hm : 0 < m, x.toModel.unpack = .finite .positive m e hm := by
  rw [value] at hx
  cases h : x.toModel.unpack with
  | finite s m e hm =>
    rw [h, number] at hx
    cases s with
    | positive => exact ⟨m, e, hm, rfl⟩
    | negative => exact absurd (neg_pos.1 hx) (size_pos e hm).not_gt
  | _ =>
    rw [h] at hx
    exact absurd hx (lt_irrefl 0)

/-- A quotient that is not below one is not rounded to below it. It may become infinite. -/
theorem not_div_lt_one (hy0 : 0 < value y) (h : value y ≤ value x) : ¬ x / y < 1.0 := by
  obtain ⟨m, e, hm, hx⟩ := unpack_of_value_pos (hy0.trans_le h)
  obtain ⟨n, f, hn, hy⟩ := unpack_of_value_pos hy0
  have hdiv : x / y = .ofModel (.pack (UnpackedFloat.div Format.binary64
      (.finite .positive m e hm) (.finite .positive n f hn))) := by
    rw [← hx, ← hy]
    rfl
  rw [value, value, hx, hy] at h
  obtain ⟨k, t, hq, hk, hcarry⟩ := roundedFrom_div hm hn .positive .positive
  have hone : 1 ≤ (k * 2 ^ t : ℚ) := by
    rw [← size_one]
    apply hq.size_le hk canonical_one
    rw [size_one]
    exact (one_le_div (size_pos f hn)).2 h
  have hkpos : 0 < k := Nat.pos_of_ne_zero fun hzero => by
    rw [hzero, Nat.cast_zero, zero_mul] at hone
    exact hone.not_gt one_pos
  obtain ⟨m', e', hm', hc, -, hrounded⟩ := hq.exists_carry_eq hk hkpos
  have hpositive : (Sign.positive / Sign.positive) = Sign.positive := rfl
  rw [hcarry, hpositive, hrounded] at hdiv
  by_cases he' : e' ≤ 971
  · have hunpack : (x / y).toModel.unpack = .finite .positive m' e' hm' := by
      rw [hdiv]
      exact unpack_ofModel_pack ⟨hc, he'⟩
    have hvalue : value (x / y) = k * 2 ^ t := by
      rw [value, hunpack, ← hrounded .positive, number_carry _ (hq.nearest_le hk)]
      rfl
    have hfinite : (x / y).isFinite = true := by
      rw [isFinite_unpack, hunpack]
      rfl
    rw [lt_iff hfinite one_finite, value_one, hvalue]
    exact hone.not_gt
  · have hunpack : (x / y).toModel.unpack = .infinity .positive := by
      have hoverflow := pack_overflow .positive hm' (by omega : 971 < e')
      rw [hdiv, Float.Model.pack]
      simp only [hoverflow]
      exact unpack_ofModel_pack (u := .infinity .positive) trivial
    have hcompare : x / y < 1.0 ↔ (x / y).toModel.unpack.lt (1.0 : Float).toModel.unpack = true :=
      decide_eq_true_iff
    rw [hcompare, hunpack, unpack_one]
    decide

/-- A quotient is below one exactly when the dividend is below the divisor. -/
theorem div_lt_one_iff (hx : x.isFinite = true) (hy : y.isFinite = true) (hx0 : 0 ≤ value x)
    (hy0 : 0 < value y) : x / y < 1.0 ↔ value x < value y := by
  by_cases hlt : value x < value y
  · have hbelow : value x / value y ≤ 1 := ((div_lt_one hy0).2 hlt).le
    have habs : |value x / value y| ≤ largest := by
      rw [abs_of_nonneg (div_nonneg hx0 hy0.le)]
      exact hbelow.trans ((by norm_num : (1 : ℚ) ≤ 2 ^ 53).trans two_pow_le_largest)
    obtain ⟨hfinite, hrounded⟩ := div_rounded hx hy hy0.ne' habs
    obtain ⟨m, e, hm, -, hvalue⟩ := eq_size_of_nonneg hx0
    obtain ⟨n, f, hn, -, hvalue'⟩ := eq_size_of_nonneg hy0.le
    have hlast : IsDouble ((2 ^ 53 - 1 : ℕ) * 2 ^ (-53 : ℤ)) :=
      isDouble_signed .positive ⟨by norm_num, by norm_num, .inr (by norm_num)⟩ (by norm_num)
    refine iff_of_true ?_ hlt
    rw [lt_iff hfinite one_finite, value_one]
    rw [hvalue, hvalue'] at hlt hrounded
    refine ((hrounded _ hlast).1 (size_div_le hm hn hlt)).trans_lt ?_
    norm_num
  · exact iff_of_false (not_div_lt_one hy0 (not_lt.1 hlt)) hlt

end ClauseTriage.Double
