import ClauseTriage.Decimal.Fixed
import ClauseTriage.Proofs.Decimal.Layout
import ClauseTriage.Proofs.Double.Scientific

/-!
# Written doubles are read back

Whatever the style, the text of a finite double is read as that double, the sign of a zero included.
-/
namespace ClauseTriage.Decimal

open Double
open Float.Model Float.Model.UnpackedFloat

section Reading

variable {p : Parts} {m : ℕ} {e : ℤ}

/-- Decimals of more than 330 places lie outside the doubles. -/
theorem two_pow_lt_ten_pow : 2 ^ 1075 ≤ 10 ^ 330 := by decide +kernel

/-- Where the digits of a decimal in the interval of a double begin. -/
theorem Parts.top_bounds (h : RoundsTo m e p.size) (hc : Canonical m e) (he : e ≤ 971)
    (hm : 0 < m) :
    p.digits ≠ 0 ∧ -330 ≤ p.exponent + digitCount p.digits ∧
      p.exponent + digitCount p.digits ≤ 330 := by
  have hlow := h.two_pow_le hc hm
  have hhigh := h.lt_two_pow hc he
  have hdigits : p.digits ≠ 0 := by
    intro hzero
    rw [size, hzero, Nat.cast_zero, zero_mul] at hlow
    exact (two_zpow_pos _).not_ge hlow
  have hcount : 0 < digitCount p.digits := Nat.length_toDigits_pos
  refine ⟨hdigits, ?_, ?_⟩
  · by_contra hsmall
    have : p.size < p.size := calc
      p.size < 10 ^ (digitCount p.digits : ℤ) * 10 ^ p.exponent := by
        rw [size, zpow_natCast]
        have := ten_zpow_pos p.exponent
        gcongr
        exact_mod_cast lt_pow_digitCount p.digits
      _ = 10 ^ (digitCount p.digits + p.exponent) := (zpow_add₀ (by norm_num) _ _).symm
      _ ≤ 10 ^ (-330 : ℤ) := zpow_le_zpow_right₀ (by norm_num) (by omega)
      _ ≤ 2 ^ (-1075 : ℤ) := by
        rw [zpow_neg, zpow_neg, inv_le_inv₀ (ten_zpow_pos _) (two_zpow_pos _)]
        exact_mod_cast two_pow_lt_ten_pow
      _ ≤ p.size := hlow
    exact this.false
  · by_contra hlarge
    have : p.size < p.size := calc
      p.size < 2 ^ (1024 : ℤ) := hhigh
      _ ≤ 2 ^ (1075 : ℤ) := zpow_le_zpow_right₀ (by norm_num) (by norm_num)
      _ ≤ 10 ^ (330 : ℤ) := by exact_mod_cast two_pow_lt_ten_pow
      _ ≤ 10 ^ (((digitCount p.digits - 1 : ℕ) : ℤ) + p.exponent) :=
        zpow_le_zpow_right₀ (by norm_num) (by omega)
      _ = 10 ^ ((digitCount p.digits - 1 : ℕ) : ℤ) * 10 ^ p.exponent := zpow_add₀ (by norm_num) _ _
      _ ≤ p.size := by
        rw [size, zpow_natCast]
        have := ten_zpow_pos p.exponent
        gcongr
        exact_mod_cast pow_digitCount_le (Nat.pos_of_ne_zero hdigits)
    exact this.false

theorem unpack_neg {x : Float} : (-x).toModel.unpack = x.toModel.unpack.neg := by
  apply unpack_ofModel_pack
  have := fits_unpack x
  cases h : x.toModel.unpack <;> rw [h] at this <;> trivial

/-- Parts in the interval of a double are read as it. -/
theorem Parts.unpack_toFloat (h : RoundsTo m e p.size) (hc : Canonical m e) (he : e ≤ 971)
    (hm : 0 < m) :
    p.toFloat.toModel.unpack = .finite (Double.signOf p.negative) m e hm := by
  obtain ⟨hdigits, hlow, hhigh⟩ := Parts.top_bounds h hc he hm
  have hsize : (if 0 ≤ p.exponent then Float.ofScientific p.digits false p.exponent.toNat
      else Float.ofScientific p.digits true (-p.exponent).toNat).toModel.unpack =
      .finite .positive m e hm := by
    split
    · rename_i hexponent
      refine unpack_ofScientific ?_ hc he hm
      rw [if_neg Bool.false_ne_true, Int.toNat_of_nonneg hexponent]
      exact h
    · rename_i hexponent
      refine unpack_ofScientific ?_ hc he hm
      rw [if_pos rfl, Int.toNat_of_nonneg (by omega), neg_neg]
      exact h
  unfold toFloat
  dsimp only
  rw [if_neg (show ¬(p.digits = 0 ∨ p.exponent + digitCount p.digits < -330) by omega),
    if_neg (show ¬330 < p.exponent + digitCount p.digits by omega)]
  cases hsign : p.negative with
  | true =>
    rw [if_pos rfl, unpack_neg, hsize]
    rfl
  | false =>
    rw [if_neg Bool.false_ne_true, hsize]
    rfl

/-- Nothing but zeros is read as a zero. -/
theorem Parts.toFloat_zero (h : p.digits = 0) :
    p.toFloat.toModel.unpack = .zero (Double.signOf p.negative) := by
  have hzero : p.digits = 0 ∨ p.exponent + digitCount p.digits < -330 := .inl h
  unfold Parts.toFloat
  dsimp only
  rw [if_pos hzero]
  cases p.negative with
  | true =>
    rw [if_pos rfl, unpack_neg, unpack_zero]
    rfl
  | false => exact unpack_zero

end Reading

section Numerals

variable {cs : List Char} {p : Parts}

/-- What is read as digits begins with a digit or a point. -/
theorem head_of_readUnsigned? {negative : Bool} (h : readUnsigned? negative cs = some p) :
    ∃ c r, cs = c :: r ∧ (c.isDigit = true ∨ c = '.') := by
  rw [readUnsigned?] at h
  cases cs with
  | nil => simp [splitPoint] at h
  | cons c r =>
    refine ⟨c, r, rfl, ?_⟩
    by_contra hc
    rw [not_or] at hc
    have hrest : splitPoint (c :: r) = ([], c :: r) := by
      unfold splitPoint
      split
      · rename_i heq
        exact absurd (List.cons.inj heq).1 hc.2
      · rfl
    simp [hc.1, hrest] at h

theorem toLower_of_isDigit {c : Char} (h : c.isDigit = true ∨ c = '.') : c.toLower = c := by
  rcases h with h | rfl
  · have hle : c.val ≤ '9'.val := by
      simp only [Char.isDigit, Bool.and_eq_true, decide_eq_true_eq] at h
      exact h.2
    rw [Char.toLower, dif_neg]
    intro hupper
    exact absurd (UInt32.le_trans hupper.1 hle) (by decide)
  · rfl

/-- Digits after a sign are a numeral. -/
theorem numeral?_signOf (negative : Bool) (h : readUnsigned? negative cs = some p) :
    numeral? (signOf negative ++ cs) = some (.decimal p) := by
  obtain ⟨c, r, rfl, hc⟩ := head_of_readUnsigned? h
  have hsign : splitSign (signOf negative ++ c :: r) = (negative, c :: r) := by
    cases negative with
    | true => rfl
    | false =>
      change splitSign (c :: r) = _
      unfold splitSign
      split
      · rename_i heq
        rw [(List.cons.inj heq).1] at hc
        exact absurd hc (by decide)
      · rename_i heq
        rw [(List.cons.inj heq).1] at hc
        exact absurd hc (by decide)
      · rfl
  have hword : ∀ d : Char, ¬(d.isDigit = true ∨ d = '.') → ∀ word : List Char,
      (c :: r).map Char.toLower ≠ d :: word := by
    intro d hd word heq
    rw [List.map_cons, toLower_of_isDigit hc] at heq
    exact hd ((List.cons.inj heq).1 ▸ hc)
  rw [numeral?, hsign]
  dsimp only
  rw [if_neg, if_neg, h, Option.map_some]
  · exact hword 'n' (by decide) _
  · rintro (heq | heq)
    · exact hword 'i' (by decide) _ heq
    · exact hword 'i' (by decide) _ heq

end Numerals

section Styles

variable {x : Float} {b : Binary}

/-- The text of a zero is a decimal of zeros and keeps its sign. -/
theorem numeral?_chars_zero (s : Style) (hb : magnitude x = .finite b) (hzero : b.mantissa = 0) :
    ∃ p, numeral? (s.chars x) = some (.decimal p) ∧ p.negative = b.negative ∧ p.digits = 0 := by
  have htext (negative pointed : Bool) :
      numeral? (signOf negative ++ if pointed then ['0', '.', '0'] else ['0']) =
        some (.decimal ⟨negative, 0, if pointed then -1 else 0⟩) := by
    cases negative <;> cases pointed <;> decide +kernel
  rw [Style.chars, hb]
  dsimp only
  rw [if_pos hzero, htext]
  exact ⟨_, rfl, rfl, rfl⟩

/-- The text of any other finite double is a decimal in its interval and keeps its sign. -/
theorem numeral?_chars (s : Style) (hb : magnitude x = .finite b) (hne : b.mantissa ≠ 0) :
    ∃ p, numeral? (s.chars x) = some (.decimal p) ∧ p.negative = b.negative ∧
      RoundsTo b.mantissa b.exponent p.size := by
  obtain ⟨hc, -⟩ := canonical_of_magnitude hb
  have hwrites : Writes b.negative (shortest s.tie b)
      (if s.positional.holds (shortest s.tie b).leading then (shortest s.tie b).positional s.pointed
        else (shortest s.tie b).scientific s.signedExponent) := by
    split
    · exact writes_positional _ _
    · exact writes_scientific _ _
  obtain ⟨p, hread, hsign, hsize⟩ := hwrites
  rw [Style.chars, hb]
  dsimp only
  rw [if_neg hne]
  refine ⟨p, numeral?_signOf b.negative hread, hsign, ?_⟩
  rw [hsize]
  exact shortest_roundsTo s.tie (Nat.pos_of_ne_zero hne) hc

/-- A style writes a finite double so that it is read back. -/
theorem readChars?_chars (s : Style) (hx : x.isFinite = true) : readChars? (s.chars x) = some x := by
  obtain ⟨b, hb⟩ := isFinite_iff.1 hx
  obtain ⟨hc, he⟩ := canonical_of_magnitude hb
  have hunpack := unpack_toModel x
  rw [hb, unpacked] at hunpack
  by_cases hzero : b.mantissa = 0
  · obtain ⟨p, hp, hsign, hdigits⟩ := numeral?_chars_zero s hb hzero
    have hread := Parts.toFloat_zero hdigits
    rw [dif_pos hzero] at hunpack
    rw [hsign] at hread
    rw [readChars?, hp]
    exact congrArg some (ext_unpack (hread.trans hunpack.symm))
  · obtain ⟨p, hp, hsign, hrounds⟩ := numeral?_chars s hb hzero
    have hread := Parts.unpack_toFloat hrounds hc he (Nat.pos_of_ne_zero hzero)
    rw [dif_neg hzero] at hunpack
    rw [hsign] at hread
    rw [readChars?, hp]
    exact congrArg some (ext_unpack (hread.trans hunpack.symm))

/-- A literal of generated code is read as the double it was made from. -/
theorem read?_literal (hx : x.isFinite = true) : read? (literal x) = some x := by
  rw [read?, literal, Style.write, String.toList_ofList]
  exact readChars?_chars _ hx

end Styles

section Characters

/-- The characters of decimals. -/
def isNumeric (c : Char) : Bool := c.isDigit || "+-.e".toList.contains c

/-- A text of such characters. -/
def Numeric (cs : List Char) : Prop := ∀ c ∈ cs, isNumeric c = true

instance (cs : List Char) : Decidable (Numeric cs) :=
  decidable_of_iff (cs.all isNumeric = true) List.all_eq_true

theorem Numeric.append {cs ds : List Char} (hcs : Numeric cs) (hds : Numeric ds) :
    Numeric (cs ++ ds) := List.forall_mem_append.2 ⟨hcs, hds⟩

theorem Numeric.cons {c : Char} {cs : List Char} (hc : isNumeric c = true) (hcs : Numeric cs) :
    Numeric (c :: cs) := List.forall_mem_cons.2 ⟨hc, hcs⟩

theorem numeric_of_isDigit {cs : List Char} (h : ∀ c ∈ cs, c.isDigit = true) : Numeric cs :=
  fun c hc => by rw [isNumeric, h c hc, Bool.true_or]

theorem numeric_digitsOf (n : ℕ) : Numeric (digitsOf n) :=
  numeric_of_isDigit fun _ => isDigit_of_mem_digitsOf

theorem numeric_zeros (n : ℕ) : Numeric (zeros n) := numeric_of_isDigit fun _ => isDigit_of_mem_zeros

theorem numeric_signOf (negative : Bool) : Numeric (signOf negative) := by
  cases negative <;> decide

theorem numeric_positional (d : Digits) (pointed : Bool) : Numeric (d.positional pointed) := by
  have hpoint : isNumeric '.' = true := by decide
  unfold Digits.positional
  dsimp only
  split
  · apply ((numeric_digitsOf _).append (numeric_zeros _)).append
    cases pointed <;> decide
  · split
    · exact Numeric.append (fun c hc => numeric_digitsOf _ c (List.mem_of_mem_take hc))
        (.cons hpoint fun c hc => numeric_digitsOf _ c (List.mem_of_mem_drop hc))
    · exact Numeric.append (.cons (by decide) (.cons hpoint (numeric_zeros _))) (numeric_digitsOf _)

theorem numeric_scientific (d : Digits) (signed : Bool) : Numeric (d.scientific signed) := by
  have hdigits := numeric_digitsOf d.digits
  unfold Digits.scientific
  dsimp only
  refine Numeric.append (Numeric.append ?_ (.cons (by decide) ?_)) (numeric_digitsOf _)
  · cases hds : digitsOf d.digits with
    | nil => simp [Numeric]
    | cons first rest =>
      rw [hds] at hdigits
      obtain ⟨hfirst, hrest⟩ := List.forall_mem_cons.1 hdigits
      apply Numeric.cons hfirst
      split
      · simp [Numeric]
      · exact .cons (by decide) hrest
  · split
    · decide
    · cases signed <;> decide

/-- A finite double is written with digits, signs, a point and an exponent only. -/
theorem numeric_chars (s : Style) {x : Float} (hx : x.isFinite = true) : Numeric (s.chars x) := by
  obtain ⟨b, hb⟩ := isFinite_iff.1 hx
  rw [Style.chars, hb]
  dsimp only
  split
  · apply (numeric_signOf _).append
    cases s.pointed <;> decide
  · apply (numeric_signOf _).append
    split
    · exact numeric_positional _ _
    · exact numeric_scientific _ _

theorem numeric_fixedChars (places : ℕ) {x : Float} (hx : x.isFinite = true) :
    Numeric (fixedChars places x) := by
  obtain ⟨b, hb⟩ := isFinite_iff.1 hx
  rw [fixedChars, hb]
  exact (numeric_signOf _).append (((numeric_digitsOf _).append
    (.cons (by decide) (numeric_zeros _))).append (numeric_digitsOf _))

end Characters

end ClauseTriage.Decimal
