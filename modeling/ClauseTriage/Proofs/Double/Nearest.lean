import ClauseTriage.Proofs.Double.Halves

/-!
# The nearest double

Every number belongs to a step, and its nearest double is the nearest multiple of this step. Nearest
doubles are in the order of their numbers, and each is at most half a step away.
-/
namespace ClauseTriage.Double

open Float.Model Float.Model.UnpackedFloat

section Integers

variable {x y : ℚ} {n k : ℕ}

theorem nearest_natCast (n : ℕ) : Nearest n n := by
  rw [Nearest, sub_self, abs_zero]
  norm_num

theorem Nearest.mono (hn : Nearest x n) (hk : Nearest y k) (h : x ≤ y) : n ≤ k := by
  by_contra hlt
  -- the two would be at least one apart, so both halves are reached and the numbers are the same
  have hstep : (k : ℚ) + 1 ≤ n := by exact_mod_cast not_le.1 hlt
  have hlow := (abs_le.1 hn.1).1
  have hhigh := (abs_le.1 hk.1).2
  obtain rfl : x = y := by linarith
  exact hlt (hn.unique hk).le

/-- A distance from a multiple of a step, on the scale of the step. -/
theorem abs_sub_mul_step {c : ℚ} (hc : 0 < c) (x k : ℚ) : |x - k * c| = |x / c - k| * c := by
  have hscale : x - k * c = (x / c - k) * c := by rw [sub_mul, div_mul_cancel₀ x hc.ne']
  rw [hscale, abs_mul, abs_of_pos hc]

/-- No integer is nearer than the nearest one. -/
theorem Nearest.abs_sub_le (h : Nearest x n) (k : ℕ) : |x - n| ≤ |x - k| := by
  rcases lt_trichotomy n k with hlt | rfl | hlt
  · have hstep : (n : ℚ) + 1 ≤ k := by exact_mod_cast hlt
    have hhigh := (abs_le.1 h.1).2
    exact h.1.trans (le_abs.2 (.inr (by linarith)))
  · exact le_rfl
  · have hstep : (k : ℚ) + 1 ≤ n := by exact_mod_cast hlt
    have hlow := (abs_le.1 h.1).1
    exact h.1.trans (le_abs.2 (.inl (by linarith)))

/-- Rounded division takes the nearest integer, and the even one of two, as a mantissa does. -/
theorem nearest_roundDiv (n : ℕ) {d : ℕ} (hd : 0 < d) : Nearest (n / d) (Decimal.roundDiv n d) := by
  have hround : (ExtendedMantissa.ofMantissaAndAccuracy (n / d)
      (accuracyOfFraction (n % d) d)).roundedMantissa = Decimal.roundDiv n d := by
    rw [accuracyOfFraction, Decimal.roundDiv]
    split
    · rename_i hzero
      rw [hzero, if_pos hd]
      rfl
    · rcases lt_trichotomy (2 * (n % d)) d with h | h | h
      · rw [Nat.compare_eq_lt.2 h, if_pos h]
        rfl
      · rw [Nat.compare_eq_eq.2 h, if_neg h.not_lt, if_neg h.not_gt]
        change n / d + n / d % 2 = _
        split <;> omega
      · rw [Nat.compare_eq_gt.2 h, if_neg h.not_gt, if_pos h]
        rfl
  exact hround ▸ (Stands.ofFraction n hd).nearest

theorem nearest_num_den (hx : 0 ≤ x) : Nearest x (Decimal.roundDiv x.num.toNat x.den) := by
  have hnum : (x.num.toNat : ℚ) = x.num := by
    exact_mod_cast Int.toNat_of_nonneg (Rat.num_nonneg.2 hx)
  have := nearest_roundDiv x.num.toNat x.den_pos
  rwa [hnum, Rat.num_div_den] at this

theorem exists_nearest (hx : 0 ≤ x) : ∃ n, Nearest x n := ⟨_, nearest_num_den hx⟩

end Integers

section Doubles

variable {x y r s : ℚ} {m : ℕ} {e t : ℤ}

/-- Every positive number belongs to a step. -/
theorem exists_quantum (hx : 0 < x) : ∃ t, Quantum x t := by
  obtain ⟨t, ht⟩ : ∃ t, t = max (Int.log 2 x - 52) (-1074) := ⟨_, rfl⟩
  have hlow : (2 : ℚ) ^ Int.log 2 x ≤ x := by exact_mod_cast Int.zpow_log_le_self (by norm_num) hx
  have hhigh : x < (2 : ℚ) ^ (Int.log 2 x + 1) := by
    exact_mod_cast Int.lt_zpow_succ_log_self (by norm_num) x
  refine ⟨t, by omega, ?_, ?_⟩
  · exact hhigh.trans_le (zpow_le_zpow_right₀ (by norm_num) (by omega))
  · by_cases hleast : t = -1074
    · exact .inl hleast
    · exact .inr ((zpow_le_zpow_right₀ (by norm_num) (by omega)).trans hlow)

/-- The double nearest to a number, were the exponents without a bound. -/
def NearestDouble (x r : ℚ) : Prop :=
  ∃ n t, Quantum x t ∧ Nearest (x / 2 ^ t) n ∧ r = n * 2 ^ t

theorem NearestDouble.zero : NearestDouble 0 0 := by
  refine ⟨0, -1074, ⟨le_rfl, two_zpow_pos _, .inl rfl⟩, ?_, by norm_num⟩
  rw [zero_div]
  exact_mod_cast nearest_natCast 0

theorem NearestDouble.nonneg (h : NearestDouble x r) : 0 ≤ r := by
  obtain ⟨n, t, -, -, rfl⟩ := h
  exact mul_nonneg (Nat.cast_nonneg n) (two_zpow_pos t).le

theorem canonical_two_zpow (ht : -1022 ≤ t) : Canonical (2 ^ 52) (t - 52) :=
  ⟨by decide, by omega, .inr le_rfl⟩

theorem size_two_zpow (t : ℤ) : ((2 ^ 52 : ℕ) * 2 ^ (t - 52) : ℚ) = 2 ^ t := by
  rw [Nat.cast_pow, Nat.cast_ofNat, ← zpow_natCast, ← zpow_add₀ (by norm_num)]
  congr 1
  omega

theorem NearestDouble.le_size (h : NearestDouble x r) (hc : Canonical m e) (hx : x ≤ m * 2 ^ e) :
    r ≤ m * 2 ^ e := by
  obtain ⟨n, t, hq, hn, rfl⟩ := h
  exact hq.le_size hn hc hx

theorem NearestDouble.size_le (h : NearestDouble x r) (hc : Canonical m e) (hx : m * 2 ^ e ≤ x) :
    m * 2 ^ e ≤ r := by
  obtain ⟨n, t, hq, hn, rfl⟩ := h
  exact hq.size_le hn hc hx

/-- Rounding a number of either sign to the nearest double passes no double. -/
theorem NearestDouble.rounded (h : NearestDouble x r) (s : Sign) (hx : 0 ≤ x) :
    Rounded (signed s x) (signed s r) :=
  rounded_signed s hx h.nonneg fun _ _ hc => ⟨h.le_size hc, h.size_le hc⟩

/-- A double is the nearest one to what lies in its interval. -/
theorem RoundsTo.nearestDouble (h : RoundsTo m e x) (hc : Canonical m e) (hm : 0 < m) :
    NearestDouble x (m * 2 ^ e) := by
  have hx : 0 < x := (two_zpow_pos _).trans_le (h.two_pow_le hc hm)
  obtain ⟨t, hq⟩ := exists_quantum hx
  obtain ⟨n, hn⟩ := exists_nearest (div_nonneg hx.le (two_zpow_pos t).le)
  have hcarried := number_carry .positive (t := t) (hq.nearest_le hn)
  rw [h.carry_eq hc hm hq hn] at hcarried
  exact ⟨n, t, hq, hn, hcarried⟩

/-- With all its places, a double is away from what lies in its interval by half of its last one at
most. -/
theorem RoundsTo.abs_sub_le (h : RoundsTo m e x) (hfull : 2 ^ 52 ≤ m) :
    |x - m * 2 ^ e| ≤ m * 2 ^ e / 2 ^ 53 := by
  have hpos := two_zpow_pos e
  have hhalf : (1 / 2 : ℚ) ≤ m / 2 ^ 53 := by
    have : (2 ^ 52 : ℚ) ≤ m := by exact_mod_cast hfull
    linarith
  calc |x - m * 2 ^ e| = |x / 2 ^ e - m| * 2 ^ e := abs_sub_mul_step hpos x m
    _ ≤ 1 / 2 * 2 ^ e := mul_le_mul_of_nonneg_right h.nearest.1 hpos.le
    _ ≤ m / 2 ^ 53 * 2 ^ e := mul_le_mul_of_nonneg_right hhalf hpos.le
    _ = m * 2 ^ e / 2 ^ 53 := by ring

theorem NearestDouble.le_two_zpow (h : NearestDouble x r) (ht : -1022 ≤ t) (hx : x ≤ 2 ^ t) :
    r ≤ 2 ^ t := by
  have hc := canonical_two_zpow ht
  rw [← size_two_zpow] at hx ⊢
  exact h.le_size hc hx

theorem NearestDouble.two_zpow_le (h : NearestDouble x r) (ht : -1022 ≤ t) (hx : 2 ^ t ≤ x) :
    2 ^ t ≤ r := by
  have hc := canonical_two_zpow ht
  rw [← size_two_zpow] at hx ⊢
  exact h.size_le hc hx

/-- Below a power of two, the nearest double is at most half a step away. -/
theorem NearestDouble.abs_sub_le (h : NearestDouble x r) (ht : -1074 ≤ t) (hx : x < 2 ^ (t + 53)) :
    |x - r| ≤ 2 ^ t / 2 := by
  obtain ⟨n, u, hq, hn, rfl⟩ := h
  have hstep : u ≤ t := by
    rcases hq.full with rfl | hfull
    · exact ht
    · have := (zpow_lt_zpow_iff_right₀ (by norm_num : (1 : ℚ) < 2)).1 (hfull.trans_lt hx)
      omega
  have hpos := two_zpow_pos u
  calc |x - n * 2 ^ u| = |x / 2 ^ u - n| * 2 ^ u := abs_sub_mul_step hpos x n
    _ ≤ 1 / 2 * 2 ^ u := mul_le_mul_of_nonneg_right hn.1 hpos.le
    _ ≤ 1 / 2 * 2 ^ t := by
      gcongr
      norm_num
    _ = 2 ^ t / 2 := by ring

/-- The nearest doubles are in the order of their numbers. -/
theorem NearestDouble.mono (hr : NearestDouble x r) (hs : NearestDouble y s) (h : x ≤ y) :
    r ≤ s := by
  obtain ⟨n, t, hq, hn, rfl⟩ := hr
  obtain ⟨k, u, hq', hk, rfl⟩ := hs
  rcases lt_trichotomy t u with htu | rfl | htu
  · have hleast := hq.least
    have hfull : (2 ^ 52 : ℚ) ≤ k := by exact_mod_cast hq'.le_nearest hk (by omega)
    have hbound : (n : ℚ) ≤ 2 ^ 53 := by exact_mod_cast hq.nearest_le hn
    have hstep : (2 : ℚ) ^ (t + 1) ≤ 2 ^ u := zpow_le_zpow_right₀ (by norm_num) htu
    calc (n * 2 ^ t : ℚ) ≤ 2 ^ 53 * 2 ^ t := mul_le_mul_of_nonneg_right hbound (two_zpow_pos t).le
      _ = 2 ^ 52 * 2 ^ (t + 1) := by
        rw [zpow_add_one₀ (by norm_num)]
        ring
      _ ≤ k * 2 ^ u := mul_le_mul hfull hstep (two_zpow_pos _).le (Nat.cast_nonneg k)
  · have hpos := two_zpow_pos t
    have hnk : n ≤ k := hn.mono hk (div_le_div_of_nonneg_right h hpos.le)
    have : (n : ℚ) ≤ k := by exact_mod_cast hnk
    exact mul_le_mul_of_nonneg_right this hpos.le
  · have hleast := hq'.least
    have : x < x := calc
      x ≤ y := h
      _ < 2 ^ (u + 53) := hq'.below
      _ ≤ 2 ^ (t + 52) := zpow_le_zpow_right₀ (by norm_num) (by omega)
      _ ≤ x := hq.full.resolve_left (by omega)
    exact absurd this (lt_irrefl x)

/-- A number from the least double to the largest has a nearest one, in whose interval it lies. -/
theorem exists_nearestDouble (hlow : unit ≤ x) (hhigh : x ≤ largest) :
    ∃ m e, 0 < m ∧ Canonical m e ∧ e ≤ 971 ∧ RoundsTo m e x ∧ NearestDouble x (m * 2 ^ e) := by
  have hx := unit_pos.trans_le hlow
  obtain ⟨t, hq⟩ := exists_quantum hx
  have hpos := two_zpow_pos t
  obtain ⟨n, hn⟩ := exists_nearest (div_nonneg hx.le hpos.le)
  have hnpos : 0 < n := by
    by_cases ht : t = -1074
    · apply hn.le_of_ge
      rw [le_div_iff₀ hpos, Nat.cast_one, one_mul, ht]
      exact hlow
    · have := hq.le_nearest hn ht
      omega
  obtain ⟨m, e, hm, hc, hround, hcarry⟩ := hq.exists_carry_eq hn hnpos
  have hfits := fits_carry .positive hq hn hhigh
  have hsize := number_carry .positive (t := t) (hq.nearest_le hn)
  rw [hcarry] at hfits hsize
  exact ⟨m, e, hm, hc, hfits.2, hround, n, t, hq, hn, hsize⟩

end Doubles

end ClauseTriage.Double
