import ClauseTriage.Proofs.Double.Halves
import ClauseTriage.Proofs.Double.Nearest

/-!
# Doubles that do not vanish

Counts, and sums and quotients of a few of them, stay far from both ends of the doubles. So such a
sum or quotient is zero only where it is zero without rounding.
-/
namespace ClauseTriage.Double

open Float.Model Float.Model.UnpackedFloat

section Rounding

variable {q r : ℚ} {t : ℕ}

theorem isDouble_zero : IsDouble 0 := ⟨0.0, zero_finite, value_zero⟩

theorem isDouble_two_zpow {e : ℤ} (hlow : -1022 ≤ e) (hhigh : e ≤ 1023) :
    IsDouble (2 ^ e) := by
  rw [← size_two_zpow]
  exact isDouble_signed .positive (canonical_two_zpow hlow) (by omega)

theorem two_pow_le_largest_of_le (ht : t ≤ 1000) : (2 : ℚ) ^ t ≤ largest := by
  have hdouble := isDouble_two_zpow (e := t) (by omega) (by omega)
  obtain ⟨x, -, hx⟩ := hdouble
  rw [zpow_natCast] at hx
  rw [← hx]
  exact (le_abs_self _).trans (abs_value_le x)

/-- A size that is zero or between two powers of two is rounded to one that is, too. -/
theorem Rounded.between (h : Rounded q r) (ht : t ≤ 1000) (hhigh : q ≤ 2 ^ t)
    (hlow : q = 0 ∨ (2 ^ t)⁻¹ ≤ q) : r ≤ 2 ^ t ∧ (r = 0 ∨ (2 ^ t)⁻¹ ≤ r) ∧ (r = 0 ↔ q = 0) := by
  have hupper : r ≤ 2 ^ t := by
    have hdouble := isDouble_two_zpow (e := t) (by omega) (by omega)
    rw [zpow_natCast] at hdouble
    exact (h _ hdouble).1 hhigh
  refine ⟨hupper, ?_⟩
  rcases hlow with rfl | hlow
  · obtain ⟨hle, hge⟩ := h 0 isDouble_zero
    have hzero := le_antisymm (hle le_rfl) (hge le_rfl)
    exact ⟨.inl hzero, iff_of_true hzero rfl⟩
  · have hdouble := isDouble_two_zpow (e := -t) (by omega) (by omega)
    rw [zpow_neg, zpow_natCast] at hdouble
    have hlower := (h _ hdouble).2 hlow
    have hpos : (0 : ℚ) < (2 ^ t)⁻¹ := by positivity
    exact ⟨.inr hlower, iff_of_false (hpos.trans_le hlower).ne' (hpos.trans_le hlow).ne'⟩

/-- The double of a count is rounded from it. -/
theorem ofNat_rounded {n : ℕ} (h : (n : ℚ) ≤ largest) :
    (Float.ofNat n).isFinite = true ∧ Rounded n (value (Float.ofNat n)) := by
  rcases Nat.eq_zero_or_pos n with rfl | hpos
  · obtain ⟨hfinite, hvalue⟩ := ofNat_value (n := 0) (by norm_num)
    exact ⟨hfinite, hvalue ▸ .refl _⟩
  · have hone : unit ≤ 1 := zpow_le_one_of_nonpos₀ one_le_two (by norm_num)
    obtain ⟨m, e, hm, hc, he, hrounds, hnearest⟩ :=
      exists_nearestDouble (hone.trans (Nat.one_le_cast.2 hpos)) h
    have hread : (Float.ofNat n).toModel.unpack = .finite .positive m e hm := by
      apply unpack_ofScientific _ hc he hm
      rwa [if_neg Bool.false_ne_true, Nat.cast_zero, zpow_zero, mul_one]
    rw [isFinite_unpack, value, hread]
    refine ⟨rfl, rounded_signed .positive (Nat.cast_nonneg n) hnearest.nonneg ?_⟩
    exact fun _ _ hc' => ⟨hnearest.le_size hc', hnearest.size_le hc'⟩

end Rounding

/-- A double that is zero or between two powers of two. -/
structure Within (t : ℕ) (x : Float) : Prop where
  finite : x.isFinite = true
  high : value x ≤ 2 ^ t
  low : value x = 0 ∨ (2 ^ t)⁻¹ ≤ value x

variable {x y : Float} {s t : ℕ}

namespace Within

theorem nonneg (h : Within t x) : 0 ≤ value x := by
  rcases h.low with hzero | hlow
  · exact hzero.ge
  · exact (by positivity : (0 : ℚ) ≤ (2 ^ t)⁻¹).trans hlow

theorem mono (h : Within s x) (hst : s ≤ t) : Within t x := by
  have hpow : (2 : ℚ) ^ s ≤ 2 ^ t := pow_le_pow_right₀ one_le_two hst
  refine ⟨h.finite, h.high.trans hpow, h.low.imp_right fun hlow => ?_⟩
  exact (inv_anti₀ (by positivity) hpow).trans hlow

theorem of_value_zero (hfinite : x.isFinite = true) (hzero : value x = 0) : Within t x :=
  ⟨hfinite, hzero.trans_le (by positivity), .inl hzero⟩

/-- A double above zero is a moderate one that is not zero. -/
theorem zero_lt_iff (h : Within t x) : Scalar.lt Scalar.zero x = true ↔ value x ≠ 0 := by
  have hlt : Scalar.lt Scalar.zero x = true ↔ (0.0 : Float) < x := decide_eq_true_iff
  rw [hlt, lt_iff zero_finite h.finite, value_zero, h.nonneg.lt_iff_ne, ne_comm]

theorem of_rounded {q : ℚ} (hfinite : x.isFinite = true) (hrounded : Rounded q (value x))
    (ht : t ≤ 1000) (hhigh : q ≤ 2 ^ t) (hlow : q = 0 ∨ (2 ^ t)⁻¹ ≤ q) :
    Within t x ∧ (value x = 0 ↔ q = 0) := by
  obtain ⟨hhigh, hlow, hzero⟩ := hrounded.between ht hhigh hlow
  exact ⟨⟨hfinite, hhigh, hlow⟩, hzero⟩

/-- A count is a double that is zero only for none. -/
theorem ofNat {n : ℕ} (ht : t ≤ 1000) (hn : n ≤ 2 ^ t) :
    Within t (Float.ofNat n) ∧ (value (Float.ofNat n) = 0 ↔ n = 0) := by
  have hhigh : (n : ℚ) ≤ 2 ^ t := by exact_mod_cast hn
  obtain ⟨hfinite, hrounded⟩ := ofNat_rounded (hhigh.trans (two_pow_le_largest_of_le ht))
  rw [← Nat.cast_eq_zero (R := ℚ)]
  refine of_rounded hfinite hrounded ht hhigh ?_
  rcases Nat.eq_zero_or_pos n with rfl | hpos
  · exact .inl Nat.cast_zero
  · have hone : (1 : ℚ) ≤ 2 ^ t := one_le_pow₀ one_le_two
    exact .inr ((inv_le_one_of_one_le₀ hone).trans (Nat.one_le_cast.2 hpos))

/-- A sum is zero only where both parts are. -/
theorem add (hx : Within t x) (hy : Within t y) (ht : t + 1 ≤ 1000) :
    Within (t + 1) (x + y) ∧ (value (x + y) = 0 ↔ value x = 0 ∧ value y = 0) := by
  have hhigh : value x + value y ≤ 2 ^ (t + 1) := by
    rw [pow_succ]
    linarith [hx.high, hy.high]
  have hnonneg := add_nonneg hx.nonneg hy.nonneg
  obtain ⟨hfinite, hrounded⟩ := add_rounded hx.finite hy.finite
    ((abs_of_nonneg hnonneg).trans_le (hhigh.trans (two_pow_le_largest_of_le ht)))
  rw [← add_eq_zero_iff_of_nonneg hx.nonneg hy.nonneg]
  refine of_rounded hfinite hrounded ht hhigh ?_
  rcases (hx.mono (Nat.le_succ t)).low with hx0 | hxlow
  · rcases (hy.mono (Nat.le_succ t)).low with hy0 | hylow
    · exact .inl (by rw [hx0, hy0, add_zero])
    · exact .inr (hylow.trans (le_add_of_nonneg_left hx.nonneg))
  · exact .inr (hxlow.trans (le_add_of_nonneg_right hy.nonneg))

/-- A quotient is zero only where the dividend is. -/
theorem div (hx : Within s x) (hy : Within t y) (hne : value y ≠ 0) (hst : s + t ≤ 1000) :
    Within (s + t) (x / y) ∧ (value (x / y) = 0 ↔ value x = 0) := by
  have hlow := hy.low.resolve_left hne
  have hpos : 0 < value y := hy.nonneg.lt_of_ne hne.symm
  have hnonneg : 0 ≤ value x / value y := div_nonneg hx.nonneg hpos.le
  have hhigh : value x / value y ≤ 2 ^ (s + t) := by
    rw [div_le_iff₀ hpos, pow_add, mul_assoc]
    refine hx.high.trans (le_mul_of_one_le_right (by positivity) ?_)
    rwa [inv_le_iff_one_le_mul₀' (by positivity)] at hlow
  obtain ⟨hfinite, hrounded⟩ := div_rounded hx.finite hy.finite hne
    ((abs_of_nonneg hnonneg).trans_le (hhigh.trans (two_pow_le_largest_of_le hst)))
  obtain ⟨hwithin, hzero⟩ := of_rounded hfinite hrounded hst hhigh <| by
    rcases hx.low with hx0 | hxlow
    · exact .inl (by rw [hx0, zero_div])
    · right
      rw [pow_add, mul_inv, div_eq_mul_inv]
      exact mul_le_mul hxlow (inv_anti₀ hpos hy.high) (by positivity) hx.nonneg
  rw [div_eq_zero_iff, or_iff_left hne] at hzero
  exact ⟨hwithin, hzero⟩

/-- A sum of a list is zero only where each part is. -/
theorem sum {xs : List Float} (h : ∀ x ∈ xs, Within t x) (ht : t + xs.length ≤ 1000) :
    Within (t + xs.length) (Scalar.sum xs) ∧
      (value (Scalar.sum xs) = 0 ↔ ∀ x ∈ xs, value x = 0) := by
  induction xs using List.reverseRecOn with
  | nil =>
    have hstart : (-0.0 : Float).isFinite = true ∧ value (-0.0) = 0 := by
      rw [isFinite_unpack, value, unpack_minus_zero]
      exact ⟨rfl, rfl⟩
    exact ⟨of_value_zero hstart.1 hstart.2, iff_of_true hstart.2 (by simp)⟩
  | append_singleton xs x ih =>
    obtain ⟨hxs, hx⟩ := List.forall_mem_append.1 h
    have hx := hx x (List.mem_singleton_self x)
    rw [List.length_append, List.length_singleton, ← Nat.add_assoc] at ht ⊢
    obtain ⟨hwithin, hzero⟩ := ih hxs (Nat.le_of_succ_le ht)
    obtain ⟨hsum, hadd⟩ := hwithin.add (hx.mono (Nat.le_add_right t xs.length)) ht
    have happend : Scalar.sum (xs ++ [x]) = Scalar.sum xs + x := by
      rw [Scalar.sum, List.foldl_append]
      rfl
    rw [happend, List.forall_mem_append, List.forall_mem_singleton, ← hzero]
    exact ⟨hsum, hadd⟩

end Within

end ClauseTriage.Double
