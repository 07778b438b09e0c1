import ClauseTriage.Decimal.Shortest
import ClauseTriage.Proofs.Double.Rounding

/-!
# The shortest decimal of a double

The search keeps to whole numbers over a common denominator. Its test says in rationals that a
decimal lies in the interval of the double, and the grid of 17 places always has a decimal that
passes: a step of that grid is less than the width of the interval.
-/
namespace ClauseTriage.Decimal

open Double (Canonical RoundsTo zpow_mul_pow_toNat two_zpow_pos)

/-- The number that digits and an exponent write. -/
def Digits.value (d : Digits) : ℚ := d.digits * 10 ^ d.exponent

/-- The number without its sign. -/
def Binary.size (b : Binary) : ℚ := b.mantissa * 2 ^ b.exponent

theorem cast_pow2 (n : ℕ) : (pow2 n : ℚ) = 2 ^ n := by
  rw [pow2, Nat.pow_eq]
  push_cast
  rfl

theorem cast_pow10 (n : ℕ) : (pow10 n : ℚ) = 10 ^ n := by
  rw [pow10, Nat.pow_eq]
  push_cast
  rfl

theorem ten_zpow_pos (t : ℤ) : (0 : ℚ) < 10 ^ t := zpow_pos (by norm_num) t

theorem lt_pow_digitCount (n : ℕ) : n < 10 ^ digitCount n :=
  (Nat.length_toDigits_le_iff (by decide) Nat.length_toDigits_pos).1 (le_refl _)

theorem pow_digitCount_le {n : ℕ} (hn : 0 < n) : 10 ^ (digitCount n - 1) ≤ n := by
  by_contra hlt
  cases Nat.eq_zero_or_pos (digitCount n - 1) with
  | inl hone =>
    rw [hone] at hlt
    omega
  | inr hmore =>
    have := (Nat.length_toDigits_le_iff (by decide) hmore).2 (not_le.1 hlt)
    change digitCount n ≤ digitCount n - 1 at this
    omega

namespace Interval

variable {i : Interval} {d : Digits}

/-- Both scales multiply the decimal and the bound by the same positive number. -/
theorem scaled_eq (i : Interval) (d : Digits) :
    (i.scaled d : ℚ) = d.value * (i.denominator * 10 ^ (-d.exponent).toNat) := by
  rw [scaled, Digits.value]
  push_cast
  rw [cast_pow10, ← zpow_mul_pow_toNat (by norm_num : (10 : ℚ) ≠ 0) d.exponent]
  ring

theorem bound_eq (hi : 0 < i.denominator) (n : ℕ) (d : Digits) :
    (bound n d : ℚ) = n / i.denominator * (i.denominator * 10 ^ (-d.exponent).toNat) := by
  have hi : (i.denominator : ℚ) ≠ 0 := by exact_mod_cast hi.ne'
  rw [bound]
  push_cast
  rw [cast_pow10]
  field_simp

theorem scale_pos (hi : 0 < i.denominator) (d : Digits) :
    (0 : ℚ) < i.denominator * 10 ^ (-d.exponent).toNat := by positivity

theorem bound_le_scaled_iff (hi : 0 < i.denominator) (n : ℕ) :
    bound n d ≤ i.scaled d ↔ (n / i.denominator : ℚ) ≤ d.value := by
  rw [← Nat.cast_le (α := ℚ), scaled_eq, bound_eq hi, mul_le_mul_iff_left₀ (scale_pos hi d)]

theorem scaled_le_bound_iff (hi : 0 < i.denominator) (n : ℕ) :
    i.scaled d ≤ bound n d ↔ d.value ≤ (n / i.denominator : ℚ) := by
  rw [← Nat.cast_le (α := ℚ), scaled_eq, bound_eq hi, mul_le_mul_iff_left₀ (scale_pos hi d)]

theorem holds_iff (hi : 0 < i.denominator) :
    i.holds d = true ↔
      ((i.lower / i.denominator : ℚ) ≤ d.value ∧ d.value ≤ i.upper / i.denominator) ∧
      (i.closed = false → (i.lower / i.denominator : ℚ) < d.value ∧ d.value < i.upper / i.denominator) := by
  have hlower := bound_le_scaled_iff (d := d) hi i.lower
  have hupper := scaled_le_bound_iff (d := d) hi i.upper
  have hlower' := scaled_le_bound_iff (d := d) hi i.lower
  have hupper' := bound_le_scaled_iff (d := d) hi i.upper
  rw [holds]
  cases i.closed with
  | true => simp [hlower, hupper]
  | false =>
    simp only [Bool.false_eq_true, if_false, Bool.and_eq_true, decide_eq_true_eq, ← not_le, hlower',
      hupper', forall_const]
    exact ⟨fun h => ⟨⟨(not_le.1 h.1).le, (not_le.1 h.2).le⟩, h⟩, And.right⟩

/-- A decimal is picked only when it passes. -/
theorem holds_of_pick {tie : Tie} {low high : Digits} (h : i.pick tie low high = some d) :
    i.holds d = true := by
  unfold pick at h
  split at h
  · cases h
  · cases h
    assumption
  · cases h
    assumption
  · dsimp only at h
    repeat' split at h
    all_goals
      cases h
      assumption

/-- One of two decimals is picked when one of them passes. -/
theorem pick_ne_none {tie : Tie} {low high : Digits}
    (h : i.holds low = true ∨ i.holds high = true) : i.pick tie low high ≠ none := by
  unfold pick
  split
  · rename_i hlow hhigh
    rw [hlow, hhigh] at h
    simp at h
  · simp
  · simp
  · dsimp only
    repeat' split
    all_goals simp

/-- The leading power of ten does not exceed the value. -/
theorem pow_leading_le (hi : 0 < i.denominator) (hvalue : 0 < i.value) :
    (10 : ℚ) ^ i.leading ≤ i.value / i.denominator := by
  have hi' : (0 : ℚ) < i.denominator := by exact_mod_cast hi
  rw [leading]
  split
  · rename_i hle
    have hq : 0 < i.value / i.denominator := Nat.div_pos hle hi
    have hexponent : ((digitCount (i.value / i.denominator) : ℤ) - 1) =
        ((digitCount (i.value / i.denominator) - 1 : ℕ) : ℤ) := by
      have : 0 < digitCount (i.value / i.denominator) := Nat.length_toDigits_pos
      omega
    rw [hexponent, zpow_natCast]
    calc (10 : ℚ) ^ (digitCount (i.value / i.denominator) - 1) ≤ (i.value / i.denominator : ℕ) := by
          exact_mod_cast pow_digitCount_le hq
      _ ≤ i.value / i.denominator := Nat.cast_div_le
  · rename_i hlt
    obtain ⟨c, hc⟩ : ∃ c, c = ceilDiv i.denominator i.value := ⟨_, rfl⟩
    rw [← hc]
    have hceil : i.denominator ≤ c * i.value := by
      have := Nat.div_add_mod i.denominator i.value
      rw [hc, ceilDiv]
      split
      · rename_i hzero
        rw [Nat.mul_comm]
        omega
      · have := Nat.mod_lt i.denominator hvalue
        rw [Nat.add_mul, Nat.mul_comm]
        omega
    have hpow : c ≤ 10 ^ digitCount (c - 1) := by
      have := lt_pow_digitCount (c - 1)
      omega
    rw [le_div_iff₀ hi', zpow_neg, zpow_natCast, inv_mul_le_iff₀ (by positivity)]
    exact_mod_cast hceil.trans (Nat.mul_le_mul_right _ hpow)

/-- The two neighbours enclose the value on a grid of the step `10 ^ exponent`. -/
theorem neighbours_enclose (hi : 0 < i.denominator) (places : ℕ) :
    let exponent := i.leading - places + 1
    (i.neighbours places).1.value ≤ i.value / i.denominator ∧
      (i.value / i.denominator : ℚ) < (i.neighbours places).2.value ∧
      (i.neighbours places).2.value = (i.neighbours places).1.value + 10 ^ exponent := by
  dsimp only [neighbours, Digits.value]
  obtain ⟨exponent, hexponent⟩ : ∃ t : ℤ, t = i.leading - places + 1 := ⟨_, rfl⟩
  rw [← hexponent]
  obtain ⟨whole, hwhole⟩ : ∃ n, n = bound i.value ⟨0, exponent⟩ := ⟨_, rfl⟩
  obtain ⟨scale, hscale⟩ : ∃ n, n = pow10 exponent.toNat * i.denominator := ⟨_, rfl⟩
  rw [← hwhole, ← hscale]
  have hpos : 0 < scale := by
    rw [hscale]
    exact Nat.mul_pos (pow10_pos _) hi
  have hvalue : (whole / scale * 10 ^ exponent : ℚ) = i.value / i.denominator := by
    have hi : (i.denominator : ℚ) ≠ 0 := by exact_mod_cast hi.ne'
    rw [hwhole, hscale, bound]
    push_cast
    rw [cast_pow10, cast_pow10, ← zpow_mul_pow_toNat (by norm_num : (10 : ℚ) ≠ 0) exponent]
    have := (ten_zpow_pos exponent).ne'
    field_simp
  rw [← hvalue]
  have hstep := ten_zpow_pos exponent
  have hlow : ((whole / scale : ℕ) : ℚ) ≤ whole / scale := Nat.cast_div_le
  have hhigh : (whole / scale : ℚ) < (whole / scale + 1 : ℕ) := by
    rw [div_lt_iff₀ (by exact_mod_cast hpos), mul_comm]
    exact_mod_cast Nat.lt_mul_div_succ whole hpos
  refine ⟨by gcongr, by gcongr, ?_⟩
  push_cast
  ring

end Interval

namespace Binary

variable {b : Binary}

theorem interval_denominator_pos (b : Binary) : 0 < b.interval.denominator := pow2_pos _

/-- A bound of the interval over the common denominator, in quarters of a step. -/
theorem quarters_eq (b : Binary) (n : ℕ) :
    ((n * pow2 (b.exponent - 2).toNat : ℕ) / b.interval.denominator : ℚ) = n / 4 * 2 ^ b.exponent := by
  have hdenominator : (b.interval.denominator : ℚ) = 2 ^ (-(b.exponent - 2)).toNat := by
    rw [neg_sub]
    exact cast_pow2 _
  rw [hdenominator]
  push_cast
  rw [cast_pow2, ← zpow_mul_pow_toNat (by norm_num : (2 : ℚ) ≠ 0) (b.exponent - 2),
    zpow_sub₀ (by norm_num), ← mul_assoc, mul_div_cancel_right₀ _ (by positivity)]
  norm_num
  ring

theorem interval_value (b : Binary) : (b.interval.value / b.interval.denominator : ℚ) = b.size := by
  have := quarters_eq b (4 * b.mantissa)
  rw [interval, size]
  rw [interval] at this
  rw [this]
  push_cast
  ring

theorem interval_upper (b : Binary) :
    (b.interval.upper / b.interval.denominator : ℚ) = (b.mantissa + 1 / 2) * 2 ^ b.exponent := by
  have := quarters_eq b (4 * b.mantissa + 2)
  rw [interval] at this ⊢
  rw [this]
  push_cast
  ring

theorem interval_lower (hb : 0 < b.mantissa) :
    (b.interval.lower / b.interval.denominator : ℚ) =
      (b.mantissa - if b.mantissa = 2 ^ 52 ∧ -1074 < b.exponent then 1 / 4 else 1 / 2) *
        2 ^ b.exponent := by
  by_cases hpower : b.mantissa = 2 ^ 52 ∧ -1074 < b.exponent
  · have := quarters_eq b (4 * b.mantissa - 1)
    have hlower : b.interval.lower = (4 * b.mantissa - 1) * pow2 (b.exponent - 2).toNat := by
      rw [interval]
      dsimp only
      rw [if_pos (show b.mantissa = pow2 52 ∧ -1074 < b.exponent from hpower)]
    rw [hlower, this, if_pos hpower, Nat.cast_sub (by omega)]
    push_cast
    ring
  · have := quarters_eq b (4 * b.mantissa - 2)
    have hlower : b.interval.lower = (4 * b.mantissa - 2) * pow2 (b.exponent - 2).toNat := by
      rw [interval]
      dsimp only
      rw [if_neg (show ¬(b.mantissa = pow2 52 ∧ -1074 < b.exponent) from hpower)]
    rw [hlower, this, if_neg hpower, Nat.cast_sub (by omega)]
    push_cast
    ring

/-- The test of the search says that a decimal rounds to the double. -/
theorem interval_holds_iff (hb : 0 < b.mantissa) (d : Digits) :
    b.interval.holds d = true ↔ RoundsTo b.mantissa b.exponent d.value := by
  have hclosed : b.interval.closed = false ↔ b.mantissa % 2 = 1 := by
    rw [interval]
    simp
  rw [Interval.holds_iff (interval_denominator_pos b), interval_lower hb, interval_upper, hclosed]
  exact ⟨fun ⟨⟨hlow, hhigh⟩, hends⟩ => ⟨hlow, hhigh, hends⟩,
    fun ⟨hlow, hhigh, hends⟩ => ⟨⟨hlow, hhigh⟩, hends⟩⟩

/-- One of the neighbours on the grid of 17 places rounds to the double. -/
theorem neighbours_roundsTo (hb : 0 < b.mantissa) (hc : Canonical b.mantissa b.exponent) :
    RoundsTo b.mantissa b.exponent (b.interval.neighbours 17).1.value ∨
      RoundsTo b.mantissa b.exponent (b.interval.neighbours 17).2.value := by
  obtain ⟨hlow, hhigh, hstep⟩ := Interval.neighbours_enclose (interval_denominator_pos b) 17
  rw [interval_value] at hlow hhigh
  have hvalue : 0 < b.interval.value := by
    rw [interval]
    exact Nat.mul_pos (by omega) (pow2_pos _)
  have hleading := Interval.pow_leading_le (interval_denominator_pos b) hvalue
  rw [interval_value] at hleading
  -- a step of the grid is at most `10 ^ -16` of the value
  have hgrid : (10 : ℚ) ^ (b.interval.leading - ((17 : ℕ) : ℤ) + 1) * 10 ^ (16 : ℤ) ≤ b.size := by
    rw [← zpow_add₀ (by norm_num)]
    apply le_trans (zpow_le_zpow_right₀ (by norm_num) ?_) hleading
    push_cast
    omega
  obtain ⟨grid, hgrideq⟩ : ∃ g, g = (10 : ℚ) ^ (b.interval.leading - ((17 : ℕ) : ℤ) + 1) := ⟨_, rfl⟩
  rw [← hgrideq] at hgrid hstep
  have hpos := two_zpow_pos b.exponent
  have hbelow : (b.mantissa : ℚ) + 1 ≤ 2 ^ 53 := by exact_mod_cast hc.below
  obtain ⟨gap, hgap⟩ : ∃ g : ℚ,
    g = if b.mantissa = 2 ^ 52 ∧ -1074 < b.exponent then 1 / 4 else 1 / 2 := ⟨_, rfl⟩
  have hgappos : 0 < gap := by
    rw [hgap]
    split <;> norm_num
  have hwidth : grid < (gap + 1 / 2) * 2 ^ b.exponent := by
    have hplaces : (b.mantissa : ℚ) < (gap + 1 / 2) * 10 ^ (16 : ℤ) := by
      rw [hgap]
      split
      · rename_i hpower
        rw [hpower.1]
        norm_num
      · have : ((1 / 2 + 1 / 2) * 10 ^ (16 : ℤ) : ℚ) = 10000000000000000 := by norm_num
        rw [this]
        linarith
    apply lt_of_mul_lt_mul_right ?_ (ten_zpow_pos 16).le
    calc grid * 10 ^ (16 : ℤ) ≤ b.mantissa * 2 ^ b.exponent := hgrid
      _ < (gap + 1 / 2) * 10 ^ (16 : ℤ) * 2 ^ b.exponent := by gcongr
      _ = (gap + 1 / 2) * 2 ^ b.exponent * 10 ^ (16 : ℤ) := by ring
  by_contra hneither
  rw [not_or] at hneither
  obtain ⟨hnotlow, hnothigh⟩ := hneither
  rw [Binary.size] at hlow hhigh
  have hlowend : (b.interval.neighbours 17).1.value ≤ (b.mantissa - gap) * 2 ^ b.exponent := by
    by_contra hinside
    have hinside := not_le.1 hinside
    have hupper : (b.interval.neighbours 17).1.value < (b.mantissa + 1 / 2) * 2 ^ b.exponent := by
      linarith
    exact hnotlow ⟨hgap ▸ hinside.le, hupper.le, fun _ => ⟨hgap ▸ hinside, hupper⟩⟩
  have hhighend : (b.mantissa + 1 / 2) * 2 ^ b.exponent ≤ (b.interval.neighbours 17).2.value := by
    by_contra hinside
    have hinside := not_le.1 hinside
    have hlower : (b.mantissa - gap) * 2 ^ b.exponent < (b.interval.neighbours 17).2.value := by
      have : 0 < gap * 2 ^ b.exponent := by positivity
      linarith
    exact hnothigh ⟨hgap ▸ hlower.le, hinside.le, fun _ => ⟨hgap ▸ hlower, hinside⟩⟩
  linarith

end Binary

theorem Digits.strip_value (d : Digits) (fuel : ℕ) : (d.strip fuel).value = d.value := by
  induction fuel generalizing d with
  | zero => rfl
  | succ fuel ih =>
    rw [strip]
    split
    · rename_i hzero
      rw [ih, value, value]
      dsimp only
      have hdigits : (d.digits : ℚ) = 10 * (d.digits / 10 : ℕ) := by
        exact_mod_cast (Nat.mul_div_cancel' (Nat.dvd_of_mod_eq_zero hzero.2)).symm
      rw [hdigits, zpow_add_one₀ (by norm_num)]
      ring
    · rfl

/-- The shortest decimal of a double rounds to it. -/
theorem shortest_roundsTo {b : Binary} (tie : Tie) (hb : 0 < b.mantissa)
    (hc : Canonical b.mantissa b.exponent) :
    RoundsTo b.mantissa b.exponent (shortest tie b).value := by
  rw [shortest]
  dsimp only
  rw [Digits.strip_value]
  cases hfound : (List.range 17).findSome? fun n =>
      b.interval.pick tie (b.interval.neighbours (n + 1)).1 (b.interval.neighbours (n + 1)).2 with
  | some d =>
    obtain ⟨n, -, hpick⟩ := List.exists_of_findSome?_eq_some hfound
    exact (b.interval_holds_iff hb d).1 (Interval.holds_of_pick hpick)
  | none =>
    have hnone := List.findSome?_eq_none_iff.1 hfound 16 (by simp)
    have hneighbours := b.neighbours_roundsTo hb hc
    rw [← b.interval_holds_iff hb, ← b.interval_holds_iff hb] at hneighbours
    exact absurd hnone (Interval.pick_ne_none hneighbours)

end ClauseTriage.Decimal
