import ClauseTriage.Proofs.Double.Rounding

/-!
# Doubles of decimals

Products, quotients and whole numbers are rounded exact values, so a double made from digits and a
power of ten is the one in whose interval the decimal lies, whichever way it is computed.
-/
namespace ClauseTriage.Double

open Float.Model Float.Model.UnpackedFloat
open Decimal (magnitude)

section Operations

theorem decreaseExponent_eq {k : ℕ} {f t : ℤ} :
    ((decreaseExponent k f t).1 : ℚ) * 2 ^ (decreaseExponent k f t).2 = k * 2 ^ f := by
  rw [decreaseExponent]
  dsimp only
  rw [Nat.shiftLeft_eq]
  push_cast
  rw [mul_assoc, ← zpow_natCast, ← zpow_add₀ (by norm_num)]
  congr 2
  omega

theorem log2_shiftLeft {k : ℕ} (hk : 0 < k) (n : ℕ) : (k <<< n).log2 = k.log2 + n := by
  have hpos : k * 2 ^ n ≠ 0 := by positivity
  rw [Nat.shiftLeft_eq, Nat.log2_eq_iff hpos, pow_add, Nat.add_right_comm, pow_add]
  exact ⟨Nat.mul_le_mul_right _ (Nat.log2_self_le hk.ne'),
    Nat.mul_lt_mul_of_pos_right Nat.lt_log2_self (by positivity)⟩

/-- A number with a power of two is rounded from its exact value. -/
theorem roundedFrom_round {k : ℕ} {f : ℤ} (hk : 0 < k) (s : Sign) :
    RoundedFrom s (k * 2 ^ f) (UnpackedFloat.round Format.binary64 s k f) := by
  rw [UnpackedFloat.round, targetExponent_eq]
  obtain ⟨t, ht⟩ : ∃ t, t = max ((k.log2 : ℤ) + f - 52) (-1074) := ⟨_, rfl⟩
  rw [← ht]
  have hvalue := decreaseExponent_eq (k := k) (f := f) (t := t)
  rw [decreaseExponent] at hvalue ⊢
  dsimp only at hvalue ⊢
  apply roundedFrom_roundWithAccuracy s
  · rw [← hvalue, mul_div_cancel_right₀ _ (two_zpow_pos _).ne']
    exact Stands.ofNat _
  · rw [log2_shiftLeft hk]
    omega

variable {k₁ k₂ : ℕ} {f₁ f₂ : ℤ}

/-- A product with all its places is rounded from its exact value. -/
theorem roundedFrom_mul (h₁ : 0 < k₁) (h₂ : 0 < k₂) (hplaces : 2 ^ 52 ≤ k₁ * k₂) (s₁ s₂ : Sign) :
    RoundedFrom (s₁ * s₂) (k₁ * 2 ^ f₁ * (k₂ * 2 ^ f₂))
      (UnpackedFloat.mul Format.binary64 (.finite s₁ k₁ f₁ h₁) (.finite s₂ k₂ f₂ h₂)) := by
  rw [UnpackedFloat.mul]
  apply roundedFrom_roundWithAccuracy
  · have hvalue : (k₁ * 2 ^ f₁ * (k₂ * 2 ^ f₂) : ℚ) = (k₁ * k₂ : ℕ) * 2 ^ (f₁ + f₂) := by
      rw [zpow_add₀ (by norm_num)]
      push_cast
      ring
    rw [hvalue, mul_div_cancel_right₀ _ (two_zpow_pos _).ne']
    exact Stands.ofNat _
  · have := (Nat.le_log2 (k := 52) (by positivity)).2 hplaces
    omega

/-- The quotient that division rounds has as many places as its result needs. -/
theorem log2_div (h₁ : 0 < k₁) (h₂ : 0 < k₂) :
    (k₁ / k₂ = 0 ∧ k₁.log2 < k₂.log2 + 1) ∨ k₁.log2 < (k₁ / k₂).log2 + k₂.log2 + 2 := by
  by_cases hzero : k₁ / k₂ = 0
  · have hlt : k₁ < k₂ := by
      rcases Nat.div_eq_zero_iff.1 hzero with h | h <;> omega
    have hlog : k₁.log2 < k₂.log2 + 1 :=
      (Nat.log2_lt h₁.ne').2 (hlt.trans Nat.lt_log2_self)
    exact .inl ⟨hzero, hlog⟩
  · right
    apply (Nat.log2_lt h₁.ne').2
    have hquotient : k₁ / k₂ + 1 ≤ 2 ^ ((k₁ / k₂).log2 + 1) := Nat.lt_log2_self
    calc k₁ < (k₁ / k₂ + 1) * k₂ := by
          rw [Nat.mul_comm]
          exact Nat.lt_mul_div_succ k₁ h₂
      _ ≤ 2 ^ ((k₁ / k₂).log2 + 1) * 2 ^ (k₂.log2 + 1) :=
        Nat.mul_le_mul hquotient Nat.lt_log2_self.le
      _ = 2 ^ ((k₁ / k₂).log2 + k₂.log2 + 2) := by
        rw [← pow_add]
        congr 1
        omega

/-- A quotient is rounded from its exact value. -/
theorem roundedFrom_div (h₁ : 0 < k₁) (h₂ : 0 < k₂) (s₁ s₂ : Sign) :
    RoundedFrom (s₁ / s₂) (k₁ * 2 ^ f₁ / (k₂ * 2 ^ f₂))
      (UnpackedFloat.div Format.binary64 (.finite s₁ k₁ f₁ h₁) (.finite s₂ k₂ f₂ h₂)) := by
  have hbits : Format.binary64.mantissaBits = 53 := by decide
  have hleast : Format.binary64.minExponent = -1074 := by decide
  rw [UnpackedFloat.div]
  simp only [divCore, Format.targetExponent, totalExponent, hbits, hleast]
  obtain ⟨t, ht⟩ : ∃ t : ℤ, t = min (f₁ - f₂)
    (max ((k₁.log2 : ℤ) + 1 + f₁ - (k₂.log2 + 1 + f₂) - (53 : ℕ)) (-1074)) := ⟨_, rfl⟩
  rw [← ht]
  obtain ⟨shift, hshift⟩ : ∃ shift, shift = (f₁ - f₂ - t).toNat := ⟨_, rfl⟩
  rw [← hshift]
  apply roundedFrom_roundWithAccuracy
  · have hvalue : (k₁ * 2 ^ f₁ / (k₂ * 2 ^ f₂) / 2 ^ t : ℚ) = (k₁ <<< shift : ℕ) / k₂ := by
      rw [Nat.shiftLeft_eq]
      push_cast
      rw [div_div, mul_assoc, ← zpow_add₀ (by norm_num), mul_comm (k₂ : ℚ), ← div_div,
        mul_div_assoc, ← zpow_sub₀ (by norm_num), ← zpow_natCast]
      congr 3
      omega
    rw [hvalue]
    exact Stands.ofFraction _ h₂
  · have hpos : 0 < k₁ <<< shift := by
      rw [Nat.shiftLeft_eq]
      positivity
    have hlog := log2_shiftLeft h₁ shift
    rcases log2_div hpos h₂ with ⟨hzero, hlt⟩ | hlt
    · rw [hzero, Nat.log2_zero]
      omega
    · omega

end Operations

section Reading

variable {m : ℕ} {e : ℤ}

/-- A number in the interval of a double is not so large that its powers are not computed. -/
theorem RoundsTo.lt_two_pow {x : ℚ} (h : RoundsTo m e x) (hc : Canonical m e) (he : e ≤ 971) :
    x < 2 ^ (1024 : ℤ) := by
  have hm : (m : ℚ) + 1 ≤ 2 ^ (53 : ℤ) := by exact_mod_cast hc.below
  calc x ≤ (m + 1 / 2) * 2 ^ e := h.high
    _ < 2 ^ (53 : ℤ) * 2 ^ e := by
      gcongr
      linarith
    _ = 2 ^ (53 + e) := (zpow_add₀ (by norm_num) _ _).symm
    _ ≤ 2 ^ (1024 : ℤ) := zpow_le_zpow_right₀ (by norm_num) (by omega)

/-- A number in the interval of a double that is not zero is not so small either. -/
theorem RoundsTo.two_pow_le {x : ℚ} (h : RoundsTo m e x) (hc : Canonical m e) (hm : 0 < m) :
    (2 : ℚ) ^ (-1075 : ℤ) ≤ x := by
  have hgap : (if m = 2 ^ 52 ∧ -1074 < e then 1 / 4 else 1 / 2 : ℚ) ≤ 1 / 2 := by
    split <;> norm_num
  have hm : (1 : ℚ) ≤ m := by exact_mod_cast hm
  have hhalf : (2 : ℚ) ^ (-1 : ℤ) = 1 / 2 := by norm_num
  calc (2 : ℚ) ^ (-1075 : ℤ) = 2 ^ (-1 : ℤ) * 2 ^ (-1074 : ℤ) := by
        rw [← zpow_add₀ (by norm_num)]
        norm_num
    _ ≤ 2 ^ (-1 : ℤ) * 2 ^ e := by
      gcongr
      · norm_num
      · exact hc.least
    _ ≤ (m - if m = 2 ^ 52 ∧ -1074 < e then 1 / 4 else 1 / 2) * 2 ^ e := by
      gcongr
      linarith
    _ ≤ x := h.low

/-- The model's own reading of a decimal, for powers of ten of any size. -/
theorem ofScientific_eq {d : ℕ} {k : ℤ} (h : RoundsTo m e (d * 10 ^ k)) (hc : Canonical m e)
    (he : e ≤ 971) (hm : 0 < m) :
    UnpackedFloat.ofScientific Format.binary64 d k = .finite .positive m e hm := by
  have hlarge := h.lt_two_pow hc he
  have hsmall := h.two_pow_le hc hm
  have hd : 0 < d := by
    apply Nat.pos_of_ne_zero
    intro hzero
    rw [hzero, Nat.cast_zero, zero_mul] at hsmall
    exact (two_zpow_pos _).not_ge hsmall
  have hten : ∀ j : ℤ, 0 ≤ j → (2 : ℚ) ^ j ≤ 10 ^ j := fun j hj =>
    zpow_le_zpow_left₀ hj (by norm_num) (by norm_num)
  have hbits : Format.binary64.mantissaBits = 53 := by decide
  have hupper : ¬ k > 2 ^ Format.binary64.exponentBits := by
    intro hk
    have hk : (2048 : ℤ) < k := by simpa using hk
    have hd : (1 : ℚ) ≤ d := by exact_mod_cast hd
    have : (2 : ℚ) ^ (1024 : ℤ) < 2 ^ (1024 : ℤ) := calc
      (2 : ℚ) ^ (1024 : ℤ) ≤ 2 ^ k := zpow_le_zpow_right₀ (by norm_num) (by omega)
      _ ≤ 10 ^ k := hten k (by omega)
      _ ≤ d * 10 ^ k := le_mul_of_one_le_left (zpow_pos (by norm_num) k).le hd
      _ < 2 ^ (1024 : ℤ) := hlarge
    exact this.false
  have hlower : ¬ k < -((2 ^ Format.binary64.exponentBits : ℤ) + d.log2) := by
    intro hk
    have hk : k < -(2048 + (d.log2 : ℤ)) := by simpa using hk
    have hdlog : (d : ℚ) ≤ 2 ^ ((d.log2 + 1 : ℕ) : ℤ) := by
      rw [zpow_natCast]
      exact_mod_cast Nat.lt_log2_self.le
    have hk10 : (10 : ℚ) ^ k ≤ 2 ^ k := by
      have := hten (-k) (by omega)
      rw [zpow_neg, zpow_neg] at this
      exact (inv_le_inv₀ (two_zpow_pos k) (zpow_pos (by norm_num) k)).1 this
    have : (2 : ℚ) ^ (-1075 : ℤ) < 2 ^ (-1075 : ℤ) := calc
      (2 : ℚ) ^ (-1075 : ℤ) ≤ d * 10 ^ k := hsmall
      _ ≤ 2 ^ ((d.log2 + 1 : ℕ) : ℤ) * 2 ^ k := by gcongr
      _ = 2 ^ (((d.log2 + 1 : ℕ) : ℤ) + k) := (zpow_add₀ (by norm_num) _ _).symm
      _ < 2 ^ (-1075 : ℤ) := zpow_lt_zpow_right₀ (by norm_num) (by omega)
    exact this.false
  rw [UnpackedFloat.ofScientific, dif_neg hd.ne', if_neg hupper, if_neg hlower]
  split
  · rename_i hk
    simp only [hbits]
    refine RoundsTo.eq_of_roundedFrom ?_ hc hm (roundedFrom_mul _ _ ?_ _ _)
    · have hvalue : ((d <<< 53 : ℕ) * 2 ^ (-((53 : ℕ) : ℤ)) * ((10 ^ k.toNat : ℕ) * 2 ^ (0 : ℤ)) : ℚ) =
          d * 10 ^ k := by
        rw [Nat.shiftLeft_eq]
        push_cast
        rw [← zpow_natCast (10 : ℚ), Int.toNat_of_nonneg hk]
        norm_num
        left
        ring
      rw [hvalue]
      exact h
    · rw [Nat.shiftLeft_eq]
      have : 0 < 10 ^ k.toNat := by positivity
      nlinarith
  · rename_i hk
    refine RoundsTo.eq_of_roundedFrom ?_ hc hm (roundedFrom_div _ _ _ _)
    have hvalue : (d * 2 ^ (0 : ℤ) / ((10 ^ (-k).toNat : ℕ) * 2 ^ (0 : ℤ)) : ℚ) = d * 10 ^ k := by
      push_cast
      rw [← zpow_natCast, Int.toNat_of_nonneg (by omega), zpow_neg]
      norm_num
    rw [hvalue]
    exact h

/-- A mantissa of fewer places is moved up to all of them. -/
theorem exists_full {k : ℕ} (hk : 0 < k) (hbelow : k < 2 ^ 53) (f : ℤ) :
    ∃ (m : ℕ) (e : ℤ), 2 ^ 52 ≤ m ∧ m < 2 ^ 53 ∧ f - 52 ≤ e ∧ e ≤ f ∧
      (m * 2 ^ e : ℚ) = k * 2 ^ f := by
  have hlog : k.log2 < 53 := (Nat.log2_lt hk.ne').2 hbelow
  refine ⟨k * 2 ^ (52 - k.log2), f - (52 - k.log2 : ℕ), ?_, ?_, by omega, by omega, ?_⟩
  · have : 2 ^ 52 = 2 ^ k.log2 * 2 ^ (52 - k.log2) := by
      rw [← pow_add]
      congr 1
      omega
    rw [this]
    exact Nat.mul_le_mul_right _ (Nat.log2_self_le hk.ne')
  · have : 2 ^ 53 = 2 ^ (k.log2 + 1) * 2 ^ (52 - k.log2) := by
      rw [← pow_add]
      congr 1
      omega
    rw [this]
    exact Nat.mul_lt_mul_of_pos_right Nat.lt_log2_self (by positivity)
  · push_cast
    rw [mul_assoc, ← zpow_natCast, ← zpow_add₀ (by norm_num)]
    congr 2
    omega

/-- The double of a whole number below `2 ^ 53` is that number, with all its places. -/
theorem unpack_toFloat {d : ℕ} (hd : 0 < d) (hbelow : d < 2 ^ 53) :
    ∃ (k : ℕ) (f : ℤ) (hk : 0 < k), 2 ^ 52 ≤ k ∧ (k * 2 ^ f : ℚ) = d ∧
      d.toUInt64.toFloat.toModel.unpack = .finite .positive k f hk := by
  obtain ⟨k, f, hlow, hhigh, hleast, hmost, hvalue⟩ := exists_full hd hbelow 0
  rw [zpow_zero, mul_one] at hvalue
  have hc : Canonical k f := ⟨hhigh, by omega, .inr hlow⟩
  have hkpos : 0 < k := by omega
  refine ⟨k, f, hkpos, hlow, hvalue, ?_⟩
  have hround : UnpackedFloat.round Format.binary64 .positive d 0 =
      .finite .positive k f hkpos := by
    refine RoundsTo.eq_of_roundedFrom ?_ hc hkpos (roundedFrom_round hd .positive)
    rw [zpow_zero, mul_one, ← hvalue]
    exact RoundsTo.self _ _
  have hword : d.toUInt64.toNat = d := by
    simp [Nat.toUInt64]
    omega
  have hpack : UnpackedFloat.ofUInt64 Format.binary64 d.toUInt64 =
      .finite .positive k f hkpos := by
    rw [UnpackedFloat.ofUInt64, UnpackedFloat.ofNat, UnpackedFloat.ofInt, UnpackedFloat.normalize, hword,
      Int.compare_eq_gt.2 (by omega)]
    exact hround
  have hfloat : d.toUInt64.toFloat = .ofModel (.pack (UnpackedFloat.ofUInt64 Format.binary64
      d.toUInt64)) := rfl
  rw [hfloat, hpack]
  exact unpack_ofModel_pack ⟨hc, by omega⟩

/-- The double is a positive power of ten with all its places. -/
def isPowerOfTen (k : ℕ) (x : Float) : Bool :=
  match magnitude x with
  | .finite b => !b.negative && 2 ^ 52 ≤ b.mantissa &&
      b.mantissa * 2 ^ b.exponent.toNat == 10 ^ k * 2 ^ (-b.exponent).toNat
  | _ => false

theorem isPowerOfTen_table : ∀ k : Fin Float.exactlyRepresentablePowersOfTen.size,
    isPowerOfTen k Float.exactlyRepresentablePowersOfTen[k] = true := by
  decide +kernel

theorem unpack_of_isPowerOfTen {k : ℕ} {x : Float} (h : isPowerOfTen k x = true) :
    ∃ (n : ℕ) (f : ℤ) (hn : 0 < n), 2 ^ 52 ≤ n ∧ (n * 2 ^ f : ℚ) = 10 ^ k ∧
      x.toModel.unpack = .finite .positive n f hn := by
  rw [isPowerOfTen] at h
  rw [unpack_toModel]
  split at h
  · rename_i b hb
    simp only [Bool.and_eq_true, Bool.not_eq_true', decide_eq_true_eq, beq_iff_eq] at h
    obtain ⟨⟨hsign, hlow⟩, hvalue⟩ := h
    have hpos : 0 < b.mantissa := by omega
    refine ⟨b.mantissa, b.exponent, hpos, hlow, ?_, ?_⟩
    · have hvalue : (b.mantissa * 2 ^ b.exponent.toNat : ℚ) = 10 ^ k * 2 ^ (-b.exponent).toNat := by
        exact_mod_cast hvalue
      rw [← zpow_mul_pow_toNat (by norm_num), ← mul_assoc] at hvalue
      exact mul_right_cancel₀ (by positivity) hvalue
    · rw [hb, unpacked, dif_neg hpos.ne', hsign]
      rfl
  · exact absurd h (by decide)

theorem unpack_mul {x y : Float} {u : UnpackedFloat} (hu : Fits u)
    (h : UnpackedFloat.mul Format.binary64 x.toModel.unpack y.toModel.unpack = u) :
    (x * y).toModel.unpack = u := by
  have hproduct : x * y = .ofModel (.pack (UnpackedFloat.mul Format.binary64 x.toModel.unpack
    y.toModel.unpack)) := rfl
  rw [hproduct, h, unpack_ofModel_pack hu]

theorem unpack_div {x y : Float} {u : UnpackedFloat} (hu : Fits u)
    (h : UnpackedFloat.div Format.binary64 x.toModel.unpack y.toModel.unpack = u) :
    (x / y).toModel.unpack = u := by
  have hquotient : x / y = .ofModel (.pack (UnpackedFloat.div Format.binary64 x.toModel.unpack
    y.toModel.unpack)) := rfl
  rw [hquotient, h, unpack_ofModel_pack hu]

/-- A decimal is read as the double in whose interval it lies. -/
theorem unpack_ofScientific {d k : ℕ} {below : Bool}
    (h : RoundsTo m e (d * 10 ^ (if below then -(k : ℤ) else k))) (hc : Canonical m e)
    (he : e ≤ 971) (hm : 0 < m) :
    (Float.ofScientific d below k).toModel.unpack = .finite .positive m e hm := by
  have hfits : Fits (.finite .positive m e hm) := ⟨hc, he⟩
  rw [Float.ofScientific]
  split
  · rename_i hfast
    have hd : 0 < d := by
      apply Nat.pos_of_ne_zero
      intro hzero
      have := h.two_pow_le hc hm
      rw [hzero, Nat.cast_zero, zero_mul] at this
      exact (two_zpow_pos _).not_ge this
    obtain ⟨k₁, f₁, hk₁, hlow₁, hvalue₁, hunpack₁⟩ := unpack_toFloat hd hfast.1
    have hsize : k < Float.exactlyRepresentablePowersOfTen.size := by
      simp [Float.exactlyRepresentablePowersOfTen]
      omega
    obtain ⟨k₂, f₂, hk₂, hlow₂, hvalue₂, hunpack₂⟩ :=
      unpack_of_isPowerOfTen (isPowerOfTen_table ⟨k, hsize⟩)
    cases below with
    | true =>
      rw [if_pos rfl]
      apply unpack_div hfits
      rw [hunpack₁]
      refine (congrArg _ hunpack₂).trans
        (RoundsTo.eq_of_roundedFrom ?_ hc hm (roundedFrom_div hk₁ hk₂ .positive .positive))
      rw [hvalue₁, hvalue₂, div_eq_mul_inv, ← zpow_natCast, ← zpow_neg]
      exact h
    | false =>
      rw [if_neg Bool.false_ne_true]
      apply unpack_mul hfits
      rw [hunpack₁]
      refine (congrArg _ hunpack₂).trans
        (RoundsTo.eq_of_roundedFrom ?_ hc hm (roundedFrom_mul hk₁ hk₂ ?_ .positive .positive))
      · rw [hvalue₁, hvalue₂, ← zpow_natCast]
        exact h
      · nlinarith
  · have hexponent : (if below then Int.negOfNat k else Int.ofNat k) =
        if below then -(k : ℤ) else k := by
      cases below
      · rfl
      · exact Int.negOfNat_eq
    dsimp only
    rw [hexponent, Float.Model.ofScientific, ofScientific_eq h hc he hm]
    exact unpack_ofModel_pack hfits

end Reading

end ClauseTriage.Double
