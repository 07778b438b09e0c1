import ClauseTriage.Proofs.Double.Counts
import ClauseTriage.Tree.Weights

/-!
# The impurity of one class

Where one of two classes has no weight, the share of the other is exactly one and the impurity is
zero. The weight may be any double; where it is not finite, the impurity may not be a number.
-/
namespace ClauseTriage.Double

open Float.Model Float.Model.UnpackedFloat
open Decimal (magnitude)

variable {x y : Float}

theorem unpack_add {u : UnpackedFloat} (hu : Fits u)
    (h : UnpackedFloat.add Format.binary64 x.toModel.unpack y.toModel.unpack = u) :
    (x + y).toModel.unpack = u := by
  have hsum : x + y = .ofModel (.pack (UnpackedFloat.add Format.binary64 x.toModel.unpack
    y.toModel.unpack)) := rfl
  rw [hsum, h, unpack_ofModel_pack hu]

section Finite

variable {s : Sign} {m : ℕ} {e : ℤ} {hm : 0 < m}

/-- Zeros leave a finite double that is not zero unchanged, from both sides. -/
theorem add_zeros (hx : x.toModel.unpack = .finite s m e hm) :
    -0.0 + x = x ∧ (0.0 : Float) + x = x ∧ x + 0.0 = x := by
  have hfits : Fits (.finite s m e hm) := hx ▸ fits_unpack x
  refine ⟨ext_unpack ?_, ext_unpack ?_, ext_unpack ?_⟩ <;> rw [hx] <;> apply unpack_add hfits
  · rw [unpack_minus_zero, hx]
    rfl
  · rw [unpack_zero, hx]
    rfl
  · rw [unpack_zero, hx]
    rfl

/-- A positive double is its whole share, and zero has none. -/
theorem div_positive (hx : x.toModel.unpack = .finite .positive m e hm) :
    x / x = 1.0 ∧ 0.0 / x = 0.0 := by
  constructor
  · have hone : (1.0 : Float).toModel.unpack = .finite .positive (2 ^ 52) (-52) (by decide) := by
      rw [unpack_toModel, show magnitude 1.0 = .finite ⟨false, 2 ^ 52, -52⟩ by decide +kernel]
      rfl
    have hcanonical : Canonical (2 ^ 52) (-52) := ⟨by decide, by decide, .inr le_rfl⟩
    have hfits : Fits (.finite .positive (2 ^ 52) (-52) (by decide)) := ⟨hcanonical, by decide⟩
    have hround : RoundsTo (2 ^ 52) (-52) (m * 2 ^ e / (m * 2 ^ e)) := by
      have hself := RoundsTo.self (2 ^ 52) (-52)
      have hvalue : ((2 ^ 52 : ℕ) * 2 ^ (-52 : ℤ) : ℚ) = 1 := by norm_num
      rwa [hvalue, ← div_self (size_pos e hm).ne'] at hself
    apply ext_unpack
    rw [hone]
    apply unpack_div hfits
    rw [hx]
    exact hround.eq_of_roundedFrom hcanonical (by decide)
      (roundedFrom_div hm hm .positive .positive)
  · have hfits : Fits (.zero .positive) := trivial
    apply ext_unpack
    rw [unpack_zero]
    apply unpack_div hfits
    rw [unpack_zero, hx]
    rfl

theorem le_zero_of_negative (hx : x.toModel.unpack = .finite .negative m e hm) :
    Scalar.le x Scalar.zero = true := by
  apply decide_eq_true
  rw [show (Scalar.zero : Float) = 0.0 from rfl, le_unpack, hx, unpack_zero]
  rfl

theorem not_le_zero_of_positive (hx : x.toModel.unpack = .finite .positive m e hm) :
    Scalar.le x Scalar.zero = false := by
  apply decide_eq_false
  rw [show (Scalar.zero : Float) = 0.0 from rfl, le_unpack, hx, unpack_zero]
  exact Bool.false_ne_true

end Finite

/-- An impurity that is zero, or that nothing is below. -/
def Pure (x : Float) : Prop := Scalar.eq x Scalar.zero = true ∨ x.isNaN = true

theorem unpack_of_isNaN {x : Float} (h : x.isNaN = true) : x.toModel.unpack = .notANumber := by
  have hisNaN : x.isNaN = x.toModel.unpack.isNaN := rfl
  rw [hisNaN] at h
  generalize x.toModel.unpack = u at h ⊢
  cases u <;> first | rfl | cases h

/-- Nothing is below what is not a number. -/
theorem lt_of_isNaN {x y : Float} (h : y.isNaN = true) : Scalar.lt x y = false := by
  have hlt : x < y ↔ x.toModel.unpack.lt y.toModel.unpack = true := decide_eq_true_iff
  apply decide_eq_false
  rw [hlt, unpack_of_isNaN h]
  cases x.toModel.unpack <;> exact Bool.false_ne_true

theorem sum_zeros {s : Sign} {m : ℕ} {e : ℤ} {hm : 0 < m}
    (hx : x.toModel.unpack = .finite s m e hm) :
    Scalar.sum [x, 0.0] = x ∧ Scalar.sum [0.0, x] = x := by
  obtain ⟨hleft, hright, hend⟩ := add_zeros hx
  constructor
  · rw [show Scalar.sum [x, 0.0] = -0.0 + x + 0.0 from rfl, hleft, hend]
  · rw [show Scalar.sum [0.0, x] = -0.0 + 0.0 + x from rfl,
      show (-0.0 + 0.0 : Float) = 0.0 by decide +kernel, hright]

/-- A negative weight counts as none, and a positive one has the whole share. -/
theorem pure_gini_of_finite {s : Sign} {m : ℕ} {e : ℤ} {hm : 0 < m}
    (hx : x.toModel.unpack = .finite s m e hm) : Pure (gini [x, 0.0]) ∧ Pure (gini [0.0, x]) := by
  obtain ⟨hlow, hhigh⟩ := sum_zeros hx
  cases s with
  | negative =>
    have hle := le_zero_of_negative hx
    constructor <;> left
    · rw [gini, hlow, if_pos hle]
      decide +kernel
    · rw [gini, hhigh, if_pos hle]
      decide +kernel
  | positive =>
    have hle := not_le_zero_of_positive hx
    obtain ⟨hone, hzero⟩ := div_positive hx
    constructor <;> left
    · rw [gini, hlow, hle, if_neg Bool.false_ne_true]
      simp only [List.map_cons, List.map_nil, hone, hzero]
      decide +kernel
    · rw [gini, hhigh, hle, if_neg Bool.false_ne_true]
      simp only [List.map_cons, List.map_nil, hone, hzero]
      decide +kernel

/-- The impurity where one class has no weight. -/
theorem pure_gini (x : Float) : Pure (gini [x, 0.0]) ∧ Pure (gini [0.0, x]) := by
  cases h : magnitude x with
  | notANumber =>
    obtain rfl : x = 0.0 / 0.0 := ext_magnitude (h.trans (by decide +kernel))
    exact ⟨.inr (by decide +kernel), .inr (by decide +kernel)⟩
  | infinite negative =>
    cases negative with
    | true =>
      obtain rfl : x = -1.0 / 0.0 := ext_magnitude (h.trans (by decide +kernel))
      exact ⟨.inl (by decide +kernel), .inl (by decide +kernel)⟩
    | false =>
      obtain rfl : x = 1.0 / 0.0 := ext_magnitude (h.trans (by decide +kernel))
      exact ⟨.inr (by decide +kernel), .inr (by decide +kernel)⟩
  | finite b =>
    have hcanonical := (canonical_of_magnitude h).1
    obtain ⟨negative, m, e⟩ := b
    rcases Nat.eq_zero_or_pos m with rfl | hm
    · obtain rfl : e = -1074 := hcanonical.full.resolve_right (by simp)
      cases negative with
      | true =>
        obtain rfl : x = -0.0 := ext_magnitude (h.trans (by decide +kernel))
        exact ⟨.inl (by decide +kernel), .inl (by decide +kernel)⟩
      | false =>
        obtain rfl : x = 0.0 := ext_magnitude (h.trans (by decide +kernel))
        exact ⟨.inl (by decide +kernel), .inl (by decide +kernel)⟩
    · have hx : x.toModel.unpack = .finite (signOf negative) m e hm := by
        rw [unpack_toModel, h, unpacked, dif_neg hm.ne']
      exact pure_gini_of_finite hx

end ClauseTriage.Double
