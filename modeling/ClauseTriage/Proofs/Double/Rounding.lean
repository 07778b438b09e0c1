import ClauseTriage.Proofs.Double.Canonical

/-!
# Rounding to doubles

The logical model rounds a mantissa with a remainder bit by bit. Said in rationals, it takes the
nearest multiple of the step that belongs to the magnitude of the value, and the even one of two. The
values that round to a given double are an interval around it.
-/
namespace ClauseTriage.Double

open Float.Model Float.Model.UnpackedFloat

/-- The integer nearest to `x`; of two that are, the even one. -/
def Nearest (x : ℚ) (n : ℕ) : Prop := |x - n| ≤ 1 / 2 ∧ (|x - n| = 1 / 2 → n % 2 = 0)

theorem Nearest.unique {x : ℚ} {n k : ℕ} (hn : Nearest x n) (hk : Nearest x k) : n = k := by
  obtain ⟨hn, hneven⟩ := hn
  obtain ⟨hk, hkeven⟩ := hk
  by_contra hne
  -- two nearest integers are neighbours at distance one half, and one of them is odd
  wlog hlt : n < k generalizing n k
  · exact this hk hkeven hn hneven (Ne.symm hne) (by omega)
  have hnk : (n : ℚ) + 1 ≤ k := by exact_mod_cast hlt
  have hupper := (abs_le.1 hn).2
  have hlower := (abs_le.1 hk).1
  have hxn : |x - n| = 1 / 2 := by
    rw [abs_of_nonneg (by linarith)]
    linarith
  have hxk : |x - k| = 1 / 2 := by
    rw [abs_of_nonpos (by linarith)]
    linarith
  have hcast : (k : ℚ) = (n + 1 : ℕ) := by
    push_cast
    linarith
  have := hneven hxn
  have := hkeven hxk
  have : k = n + 1 := by exact_mod_cast hcast
  omega

/-- What a mantissa with its two bits says of a number: the integer below it, whether it reaches the
half, and whether it is more than these two say. -/
structure Stands (em : ExtendedMantissa) (x : ℚ) : Prop where
  low : em.mantissa ≤ x
  high : x < em.mantissa + 1
  half : em.roundBit = true ↔ em.mantissa + 1 / 2 ≤ x
  exact : em.stickyBit = false ↔ x = em.mantissa ∨ x = em.mantissa + 1 / 2

namespace Stands

variable {em : ExtendedMantissa} {x : ℚ}

theorem shiftRightOne (h : Stands em x) : Stands em.shiftRightOne (x / 2) := by
  obtain ⟨m, roundBit, stickyBit⟩ := em
  obtain ⟨hlow, hhigh, hhalf, hexact⟩ := h
  dsimp only at hlow hhigh hhalf hexact
  have hm : (m : ℚ) = 2 * (m / 2 : ℕ) + (m % 2 : ℕ) := by
    exact_mod_cast (Nat.div_add_mod m 2).symm
  have hbits : (roundBit || stickyBit) = false ↔ x = m := by
    rw [Bool.or_eq_false_iff, hexact, Bool.eq_false_iff, Ne, hhalf]
    constructor
    · rintro ⟨hnot, rfl | rfl⟩
      · rfl
      · exact absurd le_rfl hnot
    · rintro rfl
      exact ⟨by linarith, .inl rfl⟩
  rcases Nat.mod_two_eq_zero_or_one m with hbit | hbit <;> rw [hbit] at hm <;> push_cast at hm
  · refine ⟨?_, ?_, ?_, ?_⟩ <;> dsimp only [ExtendedMantissa.shiftRightOne]
    · linarith
    · linarith
    · rw [hbit]
      exact ⟨fun h => by simp at h, fun h => by linarith⟩
    · rw [hbits]
      exact ⟨fun h => .inl (by linarith), fun h => by rcases h with h | h <;> linarith⟩
  · refine ⟨?_, ?_, ?_, ?_⟩ <;> dsimp only [ExtendedMantissa.shiftRightOne]
    · linarith
    · linarith
    · rw [hbit]
      exact ⟨fun _ => by linarith, fun _ => rfl⟩
    · rw [hbits]
      exact ⟨fun h => .inr (by linarith), fun h => by rcases h with h | h <;> linarith⟩

theorem shiftRight (h : Stands em x) (n : ℕ) : Stands (em >>> n) (x / 2 ^ n) := by
  change Stands (n.repeat ExtendedMantissa.shiftRightOne em) _
  induction n with
  | zero => simpa [Nat.repeat] using h
  | succ n ih =>
    rw [Nat.repeat, pow_succ, ← div_div]
    exact ih.shiftRightOne

/-- Rounding the two bits away takes the nearest integer. -/
theorem nearest (h : Stands em x) : Nearest x em.roundedMantissa := by
  obtain ⟨m, roundBit, stickyBit⟩ := em
  obtain ⟨hlow, hhigh, hhalf, hexact⟩ := h
  dsimp only at hlow hhigh hhalf hexact
  cases roundBit with
  | false =>
    have hbelow : x < m + 1 / 2 := not_le.1 fun h => by simpa using hhalf.2 h
    have hm : ExtendedMantissa.roundedMantissa ⟨m, false, stickyBit⟩ = m := by
      cases stickyBit <;> rfl
    rw [hm]
    have hdistance : |x - m| < 1 / 2 := abs_lt.2 ⟨by linarith, by linarith⟩
    exact ⟨hdistance.le, fun h => absurd h hdistance.ne⟩
  | true =>
    have habove : m + 1 / 2 ≤ x := hhalf.1 rfl
    cases stickyBit with
    | false =>
      have hx : x = m + 1 / 2 := by
        rcases hexact.1 rfl with h | h <;> linarith
      have hm : ExtendedMantissa.roundedMantissa ⟨m, true, false⟩ = m + m % 2 := rfl
      rw [hm, hx]
      rcases Nat.mod_two_eq_zero_or_one m with hbit | hbit <;> rw [hbit]
      · exact ⟨by norm_num, fun _ => by omega⟩
      · exact ⟨by norm_num, fun _ => by omega⟩
    | true =>
      have hne : x ≠ m + 1 / 2 := fun h => by simpa using hexact.2 (.inr h)
      have hstrict : m + 1 / 2 < x := lt_of_le_of_ne habove (Ne.symm hne)
      have hm : ExtendedMantissa.roundedMantissa ⟨m, true, true⟩ = m + 1 := rfl
      rw [hm]
      have hdistance : |x - (m + 1 : ℕ)| < 1 / 2 := by
        push_cast
        exact abs_lt.2 ⟨by linarith, by linarith⟩
      exact ⟨hdistance.le, fun h => absurd h hdistance.ne⟩

theorem ofNat (m : ℕ) : Stands (.ofMantissaAndAccuracy m .exact) m :=
  ⟨le_rfl, by simp [ExtendedMantissa.ofMantissaAndAccuracy],
    by simp [ExtendedMantissa.ofMantissaAndAccuracy], by simp [ExtendedMantissa.ofMantissaAndAccuracy]⟩

/-- A quotient with the accuracy of its remainder. -/
theorem ofFraction (m : ℕ) {d : ℕ} (hd : 0 < d) :
    Stands (.ofMantissaAndAccuracy (m / d) (accuracyOfFraction (m % d) d)) (m / d : ℚ) := by
  have hd' : (0 : ℚ) < d := by exact_mod_cast hd
  have hr : ((m % d : ℕ) : ℚ) < d := by exact_mod_cast Nat.mod_lt m hd
  have hx : (m / d : ℚ) = (m / d : ℕ) + (m % d : ℕ) / d := by
    rw [eq_comm, ← mul_right_inj' hd'.ne']
    field_simp
    exact_mod_cast Nat.div_add_mod m d
  rw [hx]
  generalize m / d = q
  generalize m % d = r at hr
  have hfraction : (r / d : ℚ) < 1 := (div_lt_one hd').2 hr
  rw [accuracyOfFraction]
  split
  · rename_i hzero
    subst hzero
    simpa using ofNat q
  · rename_i hpos
    have hpos : (0 : ℚ) < r / d := div_pos (by exact_mod_cast Nat.pos_of_ne_zero hpos) hd'
    rcases lt_trichotomy (2 * r) d with h | h | h
    · have hhalf : (r / d : ℚ) < 1 / 2 := by
        rw [div_lt_iff₀ hd']
        have : (2 * r : ℚ) < d := by exact_mod_cast h
        linarith
      rw [Nat.compare_eq_lt.2 h]
      refine ⟨?_, ?_, ?_, ?_⟩ <;> dsimp only [ExtendedMantissa.ofMantissaAndAccuracy]
      · linarith
      · linarith
      · exact ⟨fun h => by simp at h, fun h => by linarith⟩
      · exact ⟨fun h => by simp at h, fun h => by rcases h with h | h <;> linarith⟩
    · have hhalf : (r / d : ℚ) = 1 / 2 := by
        rw [div_eq_iff hd'.ne']
        have : (2 * r : ℚ) = d := by exact_mod_cast h
        linarith
      rw [Nat.compare_eq_eq.2 h, hhalf]
      refine ⟨?_, ?_, ?_, ?_⟩ <;> dsimp only [ExtendedMantissa.ofMantissaAndAccuracy]
      · linarith
      · linarith
      · exact ⟨fun _ => le_rfl, fun _ => rfl⟩
      · exact ⟨fun _ => .inr rfl, fun _ => rfl⟩
    · have hhalf : (1 / 2 : ℚ) < r / d := by
        rw [lt_div_iff₀ hd']
        have : (d : ℚ) < 2 * r := by exact_mod_cast h
        linarith
      rw [Nat.compare_eq_gt.2 h]
      refine ⟨?_, ?_, ?_, ?_⟩ <;> dsimp only [ExtendedMantissa.ofMantissaAndAccuracy]
      · linarith
      · linarith
      · exact ⟨fun _ => by linarith, fun _ => rfl⟩
      · exact ⟨fun h => by simp at h, fun h => by rcases h with h | h <;> linarith⟩

end Stands

/-- The exponent of the last place of a double near `x`: of 53 places, but never below the least. -/
structure Quantum (x : ℚ) (t : ℤ) : Prop where
  least : -1074 ≤ t
  below : x < 2 ^ (t + 53)
  full : t = -1074 ∨ 2 ^ (t + 52) ≤ x

/-- A rounded mantissa as a double; one place too many is carried into the exponent. -/
def carry (s : Sign) (n : ℕ) (t : ℤ) : UnpackedFloat :=
  if h : n = 0 then .zero s
  else if n < 2 ^ 53 then .finite s n t (Nat.pos_of_ne_zero h)
  else .finite s (2 ^ 52) (t + 1) (by decide)

theorem targetExponent_eq (m : ℕ) (e : ℤ) :
    Format.binary64.targetExponent (totalExponent m e) = max (m.log2 + e - 52) (-1074) := by
  have hbits : Format.binary64.mantissaBits = 53 := by decide
  have hleast : Format.binary64.minExponent = -1074 := by decide
  rw [Format.targetExponent, totalExponent, hbits, hleast]
  congr 1
  omega

/-- The second step of rounding does nothing to a mantissa of at most 53 places. -/
theorem shiftToTargetExponent_of_lt {n : ℕ} {t : ℤ} (hn : n < 2 ^ 53) (ht : -1074 ≤ t) :
    shiftToTargetExponent Format.binary64 n t .exact = (.ofMantissaAndAccuracy n .exact, t) := by
  have hlog : n.log2 ≤ 52 := by
    by_cases hzero : n = 0
    · simp [hzero]
    · have := (Nat.log2_lt hzero).2 hn
      omega
  have hshift : (max (n.log2 + t - 52) (-1074) - t).toNat = 0 := by omega
  rw [shiftToTargetExponent, targetExponent_eq, shiftToExponent, hshift]
  simp
  rfl

theorem shiftToTargetExponent_carry {t : ℤ} (ht : -1074 ≤ t) :
    shiftToTargetExponent Format.binary64 (2 ^ 53) t .exact =
      (.ofMantissaAndAccuracy (2 ^ 52) .exact, t + 1) := by
  have hshift : (max ((2 ^ 53 : ℕ).log2 + t - 52) (-1074) - t).toNat = 1 := by
    rw [Nat.log2_two_pow]
    omega
  rw [shiftToTargetExponent, targetExponent_eq, shiftToExponent, hshift]
  rfl

theorem two_zpow_pos (t : ℤ) : (0 : ℚ) < 2 ^ t := zpow_pos (by norm_num) t

/-- A power with an integer exponent is a quotient of two natural powers, one of them trivial. -/
theorem zpow_mul_pow_toNat {b : ℚ} (hb : b ≠ 0) (f : ℤ) : b ^ f * b ^ (-f).toNat = b ^ f.toNat := by
  rw [← zpow_natCast, ← zpow_natCast, ← zpow_add₀ hb]
  congr 1
  omega

theorem Nearest.le_of_le {x : ℚ} {n k : ℕ} (h : Nearest x n) (hx : x ≤ k) : n ≤ k := by
  have hlower := (abs_le.1 h.1).1
  have : (n : ℚ) < k + 1 := by linarith
  exact Nat.lt_succ_iff.1 (by exact_mod_cast this)

theorem Nearest.le_of_ge {x : ℚ} {n k : ℕ} (h : Nearest x n) (hx : k ≤ x) : k ≤ n := by
  have hupper := (abs_le.1 h.1).2
  have : (k : ℚ) < n + 1 := by linarith
  exact Nat.lt_succ_iff.1 (by exact_mod_cast this)

theorem ofMantissaAndAccuracy_mantissa (m : ℕ) (a : Accuracy) :
    (ExtendedMantissa.ofMantissaAndAccuracy m a).mantissa = m := by
  unfold ExtendedMantissa.ofMantissaAndAccuracy
  split <;> rfl

/-- The rounded mantissa, carried where it needs one place too many. -/
theorem roundWithAccuracy_eq_carry {m : ℕ} {e t : ℤ} {a : Accuracy} {em : ExtendedMantissa}
    (s : Sign) (hfirst : shiftToTargetExponent Format.binary64 m e a = (em, t)) (ht : -1074 ≤ t)
    (hn : em.roundedMantissa ≤ 2 ^ 53) :
    roundWithAccuracy Format.binary64 s m e a = carry s em.roundedMantissa t := by
  rw [roundWithAccuracy, hfirst, carry]
  dsimp only
  cases Nat.lt_or_eq_of_le hn with
  | inl hlt =>
    rw [shiftToTargetExponent_of_lt hlt ht]
    simp only [ofMantissaAndAccuracy_mantissa, if_pos hlt]
  | inr heq =>
    rw [heq, shiftToTargetExponent_carry ht]
    simp [ofMantissaAndAccuracy_mantissa]

/-- A size is rounded to the nearest multiple of the step that belongs to it. -/
def RoundedFrom (s : Sign) (x : ℚ) (u : UnpackedFloat) : Prop :=
  ∃ n t, Quantum x t ∧ Nearest (x / 2 ^ t) n ∧ u = carry s n t

/-- A mantissa that stands for a size is rounded from it when no place is missing. -/
theorem roundedFrom_roundWithAccuracy {m : ℕ} {e : ℤ} {a : Accuracy} {x : ℚ} (s : Sign)
    (hx : Stands (.ofMantissaAndAccuracy m a) (x / 2 ^ e))
    (he : e ≤ max (m.log2 + e - 52) (-1074)) :
    RoundedFrom s x (roundWithAccuracy Format.binary64 s m e a) := by
  obtain ⟨t, ht⟩ : ∃ t, t = max (m.log2 + e - 52) (-1074) := ⟨_, rfl⟩
  rw [← ht] at he
  have hshift : e + ((t - e).toNat : ℤ) = t := by omega
  have hlow := hx.low
  have hhigh := hx.high
  rw [ofMantissaAndAccuracy_mantissa, le_div_iff₀ (two_zpow_pos e)] at hlow
  rw [ofMantissaAndAccuracy_mantissa, div_lt_iff₀ (two_zpow_pos e)] at hhigh
  have hbelow : x < 2 ^ (t + 53) := by
    have hm : ((m + 1 : ℕ) : ℚ) ≤ (2 : ℚ) ^ ((m.log2 + 1 : ℕ) : ℤ) := by
      rw [zpow_natCast]
      exact_mod_cast Nat.lt_log2_self
    calc x < (m + 1 : ℕ) * 2 ^ e := by exact_mod_cast hhigh
      _ ≤ 2 ^ ((m.log2 + 1 : ℕ) : ℤ) * 2 ^ e := by gcongr
      _ = 2 ^ (((m.log2 + 1 : ℕ) : ℤ) + e) := (zpow_add₀ (by norm_num) _ _).symm
      _ ≤ 2 ^ (t + 53) := zpow_le_zpow_right₀ (by norm_num) (by omega)
  have hquantum : Quantum x t := by
    refine ⟨by omega, hbelow, ?_⟩
    by_cases hleast : t = -1074
    · exact .inl hleast
    right
    have hm : m ≠ 0 := by
      rintro rfl
      simp at ht
      omega
    have hpow : (2 : ℚ) ^ ((m.log2 : ℕ) : ℤ) ≤ m := by
      rw [zpow_natCast]
      exact_mod_cast Nat.log2_self_le hm
    calc (2 : ℚ) ^ (t + 52) = 2 ^ ((m.log2 : ℤ) + e) := by congr 1; omega
      _ = 2 ^ (m.log2 : ℤ) * 2 ^ e := zpow_add₀ (by norm_num) _ _
      _ ≤ m * 2 ^ e := by gcongr
      _ ≤ x := hlow
  have hstands := hx.shiftRight (t - e).toNat
  have hscale : x / 2 ^ e / 2 ^ (t - e).toNat = x / 2 ^ t := by
    rw [div_div, ← zpow_natCast, ← zpow_add₀ (by norm_num), hshift]
  rw [hscale] at hstands
  have hnearest := hstands.nearest
  refine ⟨_, t, hquantum, hnearest, roundWithAccuracy_eq_carry s ?_ hquantum.least ?_⟩
  · rw [shiftToTargetExponent, targetExponent_eq, ← ht, shiftToExponent]
    exact Prod.ext rfl hshift
  · apply hnearest.le_of_le
    rw [div_le_iff₀ (two_zpow_pos t)]
    calc x ≤ 2 ^ (t + 53) := hbelow.le
      _ = ((2 ^ 53 : ℕ) : ℚ) * 2 ^ t := by
        rw [zpow_add₀ (by norm_num), mul_comm]
        norm_num

/-- The numbers that round to `m · 2 ^ e`: half a step on each side, a quarter below the least
mantissa of an exponent; the ends only where the mantissa is even. -/
structure RoundsTo (m : ℕ) (e : ℤ) (x : ℚ) : Prop where
  low : (m - if m = 2 ^ 52 ∧ -1074 < e then 1 / 4 else 1 / 2) * 2 ^ e ≤ x
  high : x ≤ (m + 1 / 2) * 2 ^ e
  ends : m % 2 = 1 →
    (m - if m = 2 ^ 52 ∧ -1074 < e then 1 / 4 else 1 / 2) * 2 ^ e < x ∧ x < (m + 1 / 2) * 2 ^ e

namespace RoundsTo

variable {m n : ℕ} {e t : ℤ} {x : ℚ}

/-- On the scale of its own step, an interval holds the numbers nearest to its mantissa. -/
theorem nearest (h : RoundsTo m e x) : Nearest (x / 2 ^ e) m := by
  have hpos := two_zpow_pos e
  have hgap : (if m = 2 ^ 52 ∧ -1074 < e then 1 / 4 else 1 / 2 : ℚ) ≤ 1 / 2 := by
    split <;> norm_num
  have hlow := (le_div_iff₀ hpos).2 h.low
  have hhigh := (div_le_iff₀ hpos).2 h.high
  refine ⟨abs_le.2 ⟨by linarith, by linarith⟩, fun htie => ?_⟩
  by_contra hodd
  obtain ⟨hlow, hhigh⟩ := h.ends (by omega)
  have hlow := (lt_div_iff₀ hpos).2 hlow
  have hhigh := (div_lt_iff₀ hpos).2 hhigh
  have : |x / 2 ^ e - m| < 1 / 2 := abs_lt.2 ⟨by linarith, by linarith⟩
  exact this.ne htie

/-- No number of the interval belongs to a larger step. -/
theorem quantum_le (h : RoundsTo m e x) (hc : Canonical m e) (hq : Quantum x t) : t ≤ e := by
  by_contra hlt
  have hleast := hc.least
  have hfull : (2 : ℚ) ^ (t + 52) ≤ x := hq.full.resolve_left (by omega)
  have hm : (m : ℚ) + 1 ≤ 2 ^ 53 := by exact_mod_cast hc.below
  have : x < x := calc
    x ≤ (m + 1 / 2) * 2 ^ e := h.high
    _ < 2 ^ 53 * 2 ^ e := by gcongr; linarith
    _ = 2 ^ (53 + e) := by rw [zpow_add₀ (by norm_num)]; norm_num
    _ ≤ 2 ^ (t + 52) := zpow_le_zpow_right₀ (by norm_num) (by omega)
    _ ≤ x := hfull
  exact this.false

/-- A number of the interval with a smaller step lies in the quarter below a power of two. -/
theorem of_quantum_lt (h : RoundsTo m e x) (hc : Canonical m e) (hq : Quantum x t) (ht : t < e) :
    m = 2 ^ 52 ∧ e = t + 1 := by
  have hpos := two_zpow_pos e
  have hleast := hq.least
  have hfull : 2 ^ 52 ≤ m := hc.full.resolve_left (by omega)
  have hbelow : x / 2 ^ e < 2 ^ (t + 53 - e) := by
    rw [div_lt_iff₀ hpos, ← zpow_add₀ (by norm_num), Int.sub_add_cancel]
    exact hq.below
  have hlow := (le_div_iff₀ hpos).2 h.low
  have hgap : (if m = 2 ^ 52 ∧ -1074 < e then 1 / 4 else 1 / 2 : ℚ) ≤ 1 / 2 := by
    split <;> norm_num
  have hhalf : (m : ℚ) - 1 / 2 ≤ x / 2 ^ e := by linarith
  have hm : m = 2 ^ 52 := by
    have hstep : (2 : ℚ) ^ (t + 53 - e) ≤ 2 ^ (52 : ℤ) := zpow_le_zpow_right₀ (by norm_num) (by omega)
    have : (m : ℚ) < (2 ^ 52 + 1 : ℕ) := by
      push_cast
      norm_num at hstep
      linarith
    have : m < 2 ^ 52 + 1 := by exact_mod_cast this
    omega
  refine ⟨hm, ?_⟩
  by_contra hne
  have hstep : (2 : ℚ) ^ (t + 53 - e) ≤ 2 ^ (51 : ℤ) := zpow_le_zpow_right₀ (by norm_num) (by omega)
  rw [hm] at hhalf
  norm_num at hstep hhalf
  linarith

/-- The quarter below a power of two rounds up on the smaller step. -/
theorem nearest_of_quantum (h : RoundsTo (2 ^ 52) (t + 1) x) (hq : Quantum x t) :
    Nearest (x / 2 ^ t) (2 ^ 53) := by
  have hpos := two_zpow_pos t
  have hleast := hq.least
  have hlow := h.low
  rw [if_pos ⟨rfl, by omega⟩, zpow_add_one₀ (by norm_num), mul_comm _ (2 : ℚ), ← mul_assoc] at hlow
  have hlow := (le_div_iff₀ hpos).2 hlow
  have hbelow : x / 2 ^ t < 2 ^ (53 : ℤ) := by
    rw [div_lt_iff₀ hpos, ← zpow_add₀ (by norm_num), add_comm 53 t]
    exact hq.below
  refine ⟨abs_le.2 ?_, fun _ => by decide⟩
  norm_num at hlow hbelow ⊢
  constructor <;> linarith

/-- What lies in the interval of a double is carried to it. -/
theorem carry_eq (h : RoundsTo m e x) (hc : Canonical m e) (hm : 0 < m) (hq : Quantum x t)
    (hn : Nearest (x / 2 ^ t) n) (s : Sign) : carry s n t = .finite s m e hm := by
  rcases (h.quantum_le hc hq).lt_or_eq with hlt | rfl
  · obtain ⟨rfl, rfl⟩ := h.of_quantum_lt hc hq hlt
    obtain rfl := hn.unique (h.nearest_of_quantum hq)
    simp [carry]
  · obtain rfl := hn.unique h.nearest
    rw [carry, dif_neg hm.ne', if_pos hc.below]

/-- Rounding what lies in the interval of a double gives that double. -/
theorem eq_of_roundedFrom {s : Sign} {u : UnpackedFloat} (h : RoundsTo m e x) (hc : Canonical m e)
    (hm : 0 < m) (hu : RoundedFrom s x u) : u = .finite s m e hm := by
  obtain ⟨n, t, hq, hn, rfl⟩ := hu
  exact h.carry_eq hc hm hq hn s

/-- A double lies in its own interval. -/
theorem self (m : ℕ) (e : ℤ) : RoundsTo m e (m * 2 ^ e) := by
  have hpos := two_zpow_pos e
  have hgap : (0 : ℚ) < if m = 2 ^ 52 ∧ -1074 < e then 1 / 4 else 1 / 2 := by
    split <;> norm_num
  refine ⟨?_, ?_, fun _ => ⟨?_, ?_⟩⟩ <;> nlinarith

end RoundsTo

end ClauseTriage.Double
