import ClauseTriage.Fit.Cart
import ClauseTriage.Proofs.Double.Counts

/-!
# Halves of doubles

Half of a finite double is at most half of the largest one and loses at most half of the least one.
So two halves have a finite sum, and a threshold between two finite values is finite and separates
them.
-/
namespace ClauseTriage.Double

open Float.Model Float.Model.UnpackedFloat

variable {x y : Float}

theorem abs_value_le (x : Float) : |value x| ≤ largest := by
  obtain ⟨s, m, e, hc, he, hvalue⟩ := number_eq_signed (fits_unpack x)
  have hm : (m : ℚ) ≤ (2 ^ 53 - 1 : ℕ) := by exact_mod_cast Nat.le_sub_one_of_lt hc.below
  have hpow : (2 : ℚ) ^ e ≤ 2 ^ (971 : ℤ) := zpow_le_zpow_right₀ (by norm_num) he
  have hpos := (two_zpow_pos e).le
  rw [value, hvalue, abs_signed, abs_of_nonneg (mul_nonneg (Nat.cast_nonneg m) hpos)]
  exact mul_le_mul hm hpow hpos (Nat.cast_nonneg _)

theorem isDouble_half_largest (s : Sign) : IsDouble (signed s (largest / 2)) := by
  have hhalf : largest / 2 = (2 ^ 53 - 1 : ℕ) * 2 ^ (970 : ℤ) := by
    rw [largest, show (971 : ℤ) = 970 + 1 by norm_num, zpow_add_one₀ (by norm_num)]
    ring
  rw [hhalf]
  exact isDouble_signed s ⟨by norm_num, by norm_num, .inr (by norm_num)⟩ (by norm_num)

theorem half_rounded (hx : x.isFinite = true) :
    (x / Float.ofNat 2).isFinite = true ∧
      Rounded (value x / 2) (value (x / Float.ofNat 2)) := by
  obtain ⟨htwo, hvalue⟩ := ofNat_value (n := 2) (by norm_num)
  rw [Nat.cast_ofNat] at hvalue
  have hlarge : |value x / value (Float.ofNat 2)| ≤ largest := by
    rw [hvalue, abs_div, Nat.abs_ofNat]
    exact (half_le_self (abs_nonneg _)).trans (abs_value_le x)
  have hhalf := div_rounded hx htwo (by rw [hvalue]; norm_num) hlarge
  rwa [hvalue] at hhalf

/-- Half of a finite double is at most half of the largest. -/
theorem abs_half_le (hx : x.isFinite = true) : |value (x / Float.ofNat 2)| ≤ largest / 2 := by
  have hbound : |value x / 2| ≤ largest / 2 := by
    rw [abs_div, Nat.abs_ofNat]
    exact div_le_div_of_nonneg_right (abs_value_le x) zero_le_two
  obtain ⟨hlow, hhigh⟩ := abs_le.1 hbound
  obtain ⟨-, hrounded⟩ := half_rounded hx
  have habove := (hrounded _ (isDouble_half_largest .positive)).1 hhigh
  have hbelow := (hrounded _ (isDouble_half_largest .negative)).2 hlow
  exact abs_le.2 ⟨hbelow, habove⟩

/-- The least positive double. -/
def unit : ℚ := 2 ^ (-1074 : ℤ)

theorem unit_pos : 0 < unit := two_zpow_pos _

theorem isDouble_units {k : ℤ} (hk : |k| < 2 ^ 53) : IsDouble (k * unit) := by
  rw [Int.abs_eq_natAbs] at hk
  have hcanonical : Canonical k.natAbs (-1074) := ⟨by omega, le_rfl, .inl rfl⟩
  rcases le_total 0 k with h | h
  · have hsize : ((k.natAbs : ℤ) : ℚ) = k := by rw [Int.natAbs_of_nonneg h]
    have := isDouble_signed .positive hcanonical (by norm_num)
    rwa [signed, ← Int.cast_natCast, hsize] at this
  · have hsize : ((k.natAbs : ℤ) : ℚ) = -k := by
      rw [Int.ofNat_natAbs_of_nonpos h, Int.cast_neg]
    have := isDouble_signed .negative hcanonical (by norm_num)
    rwa [signed, ← Int.cast_natCast, hsize, neg_mul, neg_neg] at this

/-- Every double is a multiple of the least one. -/
theorem exists_units (x : Float) : ∃ k : ℤ, value x = k * unit := by
  obtain ⟨s, m, e, hc, -, hvalue⟩ := number_eq_signed (fits_unpack x)
  rw [value, hvalue, size_eq_mul hc.least]
  cases s with
  | positive => exact ⟨_, rfl⟩
  | negative => exact ⟨-(m * 2 ^ (e - -1074).toNat : ℕ), by simp [signed, unit]⟩

/-- A double below half of another one, by at most half of the least double. -/
theorem exists_le_half (x : Float) :
    ∃ d, IsDouble d ∧ d ≤ value x / 2 ∧ value x - unit ≤ 2 * d := by
  obtain ⟨s, m, e, hc, he, hvalue⟩ := number_eq_signed (fits_unpack x)
  rw [value, hvalue]
  by_cases hleast : e = -1074
  · -- the least exponent cannot be lowered, so an odd mantissa is rounded down
    obtain ⟨k, hk, hsize⟩ : ∃ k : ℤ, |k| < 2 ^ 53 ∧ signed s (m * 2 ^ e) = k * unit := by
      have hbelow := hc.below
      rw [hleast]
      cases s with
      | positive => exact ⟨m, by rw [Nat.abs_cast]; omega, by simp [signed, unit]⟩
      | negative => exact ⟨-m, by rw [abs_neg, Nat.abs_cast]; omega, by simp [signed, unit]⟩
    have hpos := unit_pos
    have hhalf : ((k / 2 : ℤ) : ℚ) * 2 ≤ k := by
      have : k / 2 * 2 ≤ k := by omega
      exact_mod_cast this
    have hodd : (k : ℚ) - 1 ≤ (k / 2 : ℤ) * 2 := by
      have : k - 1 ≤ k / 2 * 2 := by omega
      exact_mod_cast this
    rw [hsize]
    refine ⟨(k / 2 : ℤ) * unit, isDouble_units ?_, by nlinarith, by nlinarith⟩
    rw [abs_lt] at hk ⊢
    omega
  · have hhalf : (m * 2 ^ e : ℚ) = m * 2 ^ (e - 1) * 2 := by
      rw [mul_assoc, ← zpow_add_one₀ (by norm_num), sub_add_cancel]
    have hlow := hc.least
    have hcanonical : Canonical m (e - 1) :=
      ⟨hc.below, by omega, .inr (hc.full.resolve_left hleast)⟩
    have hpos := unit_pos
    refine ⟨_, isDouble_signed s hcanonical (by omega), ?_, ?_⟩ <;>
      cases s <;> simp only [signed, hhalf] <;> linarith

/-- Halving loses at most half of the least double. -/
theorem le_half (hx : x.isFinite = true) : value x - unit ≤ 2 * value (x / Float.ofNat 2) := by
  obtain ⟨-, hrounded⟩ := half_rounded hx
  obtain ⟨d, hd, hbelow, habove⟩ := exists_le_half x
  have := (hrounded d hd).2 hbelow
  linarith

/-- The halves of two doubles add up to the smaller of them at least. -/
theorem le_add_halves (hx : x.isFinite = true) (hy : y.isFinite = true) (h : value x < value y) :
    value x ≤ value (x / Float.ofNat 2) + value (y / Float.ofNat 2) := by
  have hxhalf := le_half hx
  have hyhalf := le_half hy
  have hpos := unit_pos
  obtain ⟨k, hk⟩ := exists_units x
  obtain ⟨l, hl⟩ := exists_units y
  obtain ⟨u, hu⟩ := exists_units (x / Float.ofNat 2)
  obtain ⟨v, hv⟩ := exists_units (y / Float.ofNat 2)
  rw [hk, hl, mul_lt_mul_iff_left₀ hpos, Int.cast_lt] at h
  have hu' : k - 1 ≤ 2 * u := by
    rw [hk, hu, ← mul_assoc, ← sub_one_mul, mul_le_mul_iff_left₀ hpos] at hxhalf
    exact_mod_cast hxhalf
  have hv' : l - 1 ≤ 2 * v := by
    rw [hl, hv, ← mul_assoc, ← sub_one_mul, mul_le_mul_iff_left₀ hpos] at hyhalf
    exact_mod_cast hyhalf
  have hsum : (k : ℚ) ≤ u + v := by
    have : k ≤ u + v := by omega
    exact_mod_cast this
  rw [hk, hu, hv, ← add_mul]
  exact mul_le_mul_of_nonneg_right hsum hpos.le

/-- The sum of the halves of two finite values, before and after rounding. -/
theorem add_halves_rounded (hx : x.isFinite = true) (hy : y.isFinite = true) :
    (x / Float.ofNat 2 + y / Float.ofNat 2).isFinite = true ∧
      Rounded (value (x / Float.ofNat 2) + value (y / Float.ofNat 2))
        (value (x / Float.ofNat 2 + y / Float.ofNat 2)) := by
  have hsum := (abs_add_le _ _).trans (add_le_add (abs_half_le hx) (abs_half_le hy))
  rw [add_halves] at hsum
  exact add_rounded (half_rounded hx).1 (half_rounded hy).1 hsum

/-- A threshold between two finite values is finite. -/
theorem midpoint_finite (hx : x.isFinite = true) (hy : y.isFinite = true) :
    (Cart.midpoint x y).isFinite = true := by
  rw [Cart.midpoint]
  split
  · exact hx
  · exact (add_halves_rounded hx hy).1

/-- A threshold between two finite values is not below the first and is below the second. -/
theorem midpoint_between (hx : x.isFinite = true) (hy : y.isFinite = true) (h : x < y) :
    x ≤ Cart.midpoint x y ∧ ¬ y ≤ Cart.midpoint x y := by
  rw [lt_iff hx hy] at h
  rw [Cart.midpoint]
  split
  · rw [le_iff hx hx, le_iff hy hx]
    exact ⟨le_rfl, h.not_ge⟩
  · rename_i hbelow
    obtain ⟨hfinite, hrounded⟩ := add_halves_rounded hx hy
    refine ⟨?_, fun hle => hbelow (decide_eq_true hle)⟩
    exact (le_iff hx hfinite).2 ((hrounded _ ⟨x, hx, rfl⟩).2 (le_add_halves hx hy h))

end ClauseTriage.Double
