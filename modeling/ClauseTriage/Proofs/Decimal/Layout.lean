import ClauseTriage.Decimal.Read
import ClauseTriage.Decimal.Style
import ClauseTriage.Proofs.Decimal.Shortest

/-!
# Reading what was written

Digits are read back to their number, and both layouts of a decimal, with and without an exponent,
are read back to a decimal of the same value.
-/
namespace ClauseTriage.Decimal

open Double (zpow_mul_pow_toNat)

/-- The number that the parts of a decimal write, without its sign. -/
def Parts.size (p : Parts) : ℚ := p.digits * 10 ^ p.exponent

section Digits

theorem valueOfDigits_eq (start : ℕ) (ds : List Char) :
    valueOfDigits start ds = Nat.ofDigitChars 10 ds start := rfl

theorem valueOfDigits_digitsOf (n : ℕ) : valueOfDigits 0 (digitsOf n) = n := by
  rw [valueOfDigits_eq, digitsOf, Nat.ofDigitChars_ten_toDigits]

theorem valueOfDigits_append (start : ℕ) (ds es : List Char) :
    valueOfDigits start (ds ++ es) = valueOfDigits (valueOfDigits start ds) es :=
  List.foldl_append

theorem valueOfDigits_zeros (start n : ℕ) : valueOfDigits start (zeros n) = start * 10 ^ n := by
  rw [valueOfDigits_eq, zeros, Nat.ofDigitChars_replicate_zero, Nat.mul_comm]

theorem isDigit_of_mem_digitsOf {n : ℕ} {c : Char} (h : c ∈ digitsOf n) : c.isDigit = true :=
  Nat.isDigit_of_mem_toDigits (by decide) (by decide) h

theorem isDigit_of_mem_zeros {n : ℕ} {c : Char} (h : c ∈ zeros n) : c.isDigit = true := by
  rw [List.eq_of_mem_replicate h]
  rfl

theorem digitsOf_ne_nil (n : ℕ) : digitsOf n ≠ [] := Nat.toDigits_ne_nil

/-- Numbers with the same digits are the same. -/
theorem digitsOf_injective : Function.Injective digitsOf := fun n k h => by
  rw [← valueOfDigits_digitsOf n, h, valueOfDigits_digitsOf]

end Digits

section Reading

variable {whole fraction : List Char} (negative : Bool) (tail : List Char)

theorem takeWhile_digits {ds : List Char} (hds : ∀ c ∈ ds, c.isDigit = true)
    (htail : ∀ c ∈ tail.head?, c.isDigit = false) :
    (ds ++ tail).takeWhile Char.isDigit = ds ∧ (ds ++ tail).dropWhile Char.isDigit = tail := by
  rw [List.takeWhile_append_of_pos hds, List.dropWhile_append_of_pos hds]
  cases tail with
  | nil => simp
  | cons c tail =>
    have hc := htail c rfl
    simp [hc]

theorem readUnsigned?_point (hwhole : ∀ c ∈ whole, c.isDigit = true) (hne : whole ≠ [])
    (hfraction : ∀ c ∈ fraction, c.isDigit = true) (htail : ∀ c ∈ tail.head?, c.isDigit = false) :
    readUnsigned? negative (whole ++ '.' :: (fraction ++ tail)) =
      (lastPlace? fraction.length tail).map fun exponent =>
        ⟨negative, valueOfDigits 0 (whole ++ fraction), exponent⟩ := by
  obtain ⟨htake, hdrop⟩ := takeWhile_digits ('.' :: (fraction ++ tail)) hwhole (by simp)
  obtain ⟨htake', hdrop'⟩ := takeWhile_digits tail hfraction htail
  rw [readUnsigned?, htake, hdrop, splitPoint, htake', hdrop']
  dsimp only
  rw [if_neg (by simp [hne]), valueOfDigits_append]

theorem readUnsigned?_whole (hwhole : ∀ c ∈ whole, c.isDigit = true) (hne : whole ≠ [])
    (htail : ∀ c ∈ tail.head?, c.isDigit = false ∧ c ≠ '.') :
    readUnsigned? negative (whole ++ tail) =
      (lastPlace? 0 tail).map fun exponent => ⟨negative, valueOfDigits 0 whole, exponent⟩ := by
  obtain ⟨htake, hdrop⟩ := takeWhile_digits tail hwhole fun c hc => (htail c hc).1
  have hpoint : splitPoint tail = ([], tail) := by
    unfold splitPoint
    split
    · exact absurd rfl (htail '.' rfl).2
    · rfl
  rw [readUnsigned?, htake, hdrop, hpoint]
  dsimp only
  rw [if_neg (by simp [hne])]
  rfl

/-- A text that begins with a digit has no sign. -/
theorem splitSign_of_head {cs : List Char} (h : ∀ c ∈ cs.head?, c.isDigit = true) :
    splitSign cs = (false, cs) := by
  unfold splitSign
  split
  · exact absurd (h '+' rfl) (by decide)
  · exact absurd (h '-' rfl) (by decide)
  · rfl

theorem isDigit_of_head_digitsOf {n : ℕ} {c : Char} (h : c ∈ (digitsOf n).head?) :
    c.isDigit = true :=
  isDigit_of_mem_digitsOf (List.mem_of_mem_head? h)

theorem readExponent?_digitsOf (e : ℤ) (signed : Bool) :
    readExponent? ((if e < 0 then ['-'] else if signed then ['+'] else []) ++ digitsOf e.natAbs) =
      some e := by
  have hsign : splitSign ((if e < 0 then ['-'] else if signed then ['+'] else []) ++
      digitsOf e.natAbs) = (decide (e < 0), digitsOf e.natAbs) := by
    by_cases hneg : e < 0
    · simp [hneg, splitSign]
    · cases signed with
      | true => simp [hneg, splitSign]
      | false =>
        simp only [hneg, if_false, Bool.false_eq_true, List.nil_append, decide_false]
        exact splitSign_of_head fun c hc => isDigit_of_head_digitsOf hc
  have hdigits : (digitsOf e.natAbs).all Char.isDigit = true :=
    List.all_eq_true.2 fun c hc => isDigit_of_mem_digitsOf hc
  rw [readExponent?, hsign]
  dsimp only
  rw [if_neg (by simp [hdigits, digitsOf_ne_nil]), valueOfDigits_digitsOf]
  congr 1
  split
  · rename_i hneg
    have := of_decide_eq_true hneg
    omega
  · rename_i hneg
    have : ¬ e < 0 := by simpa using hneg
    omega

end Reading

section Layouts

variable {d : Digits} {negative : Bool}

/-- The parts read from a text have its sign and the value of the decimal it was made from. -/
def Writes (negative : Bool) (d : Digits) (cs : List Char) : Prop :=
  ∃ p, readUnsigned? negative cs = some p ∧ p.negative = negative ∧ p.size = d.value

theorem Writes.of_point {whole fraction : List Char} (hwhole : ∀ c ∈ whole, c.isDigit = true)
    (hne : whole ≠ []) (hfraction : ∀ c ∈ fraction, c.isDigit = true)
    (hvalue : (valueOfDigits 0 (whole ++ fraction) : ℚ) * 10 ^ (-(fraction.length : ℤ)) = d.value) :
    Writes negative d (whole ++ '.' :: fraction) := by
  have := readUnsigned?_point negative [] hwhole hne hfraction (by simp)
  rw [List.append_nil] at this
  exact ⟨_, this, rfl, hvalue⟩

/-- The layout without an exponent keeps the value. -/
theorem writes_positional (d : Digits) (pointed : Bool) :
    Writes negative d (d.positional pointed) := by
  have hdigits : ∀ c ∈ digitsOf d.digits, c.isDigit = true := fun c hc => isDigit_of_mem_digitsOf hc
  have hne := digitsOf_ne_nil d.digits
  unfold Digits.positional
  dsimp only
  split
  · rename_i hexponent
    have hwhole : ∀ c ∈ digitsOf d.digits ++ zeros d.exponent.toNat, c.isDigit = true := by
      intro c hc
      cases List.mem_append.1 hc with
      | inl hc => exact hdigits c hc
      | inr hc => exact isDigit_of_mem_zeros hc
    have hne : digitsOf d.digits ++ zeros d.exponent.toNat ≠ [] := by simp [hne]
    have hvalue : (valueOfDigits 0 (digitsOf d.digits ++ zeros d.exponent.toNat) : ℚ) = d.value := by
      rw [valueOfDigits_append, valueOfDigits_digitsOf, valueOfDigits_zeros, Digits.value]
      push_cast
      rw [← zpow_natCast, Int.toNat_of_nonneg hexponent]
    cases pointed with
    | true =>
      apply Writes.of_point hwhole hne (by simp)
      rw [valueOfDigits_append, ← hvalue]
      have : valueOfDigits (valueOfDigits 0 (digitsOf d.digits ++ zeros d.exponent.toNat)) ['0'] =
          10 * valueOfDigits 0 (digitsOf d.digits ++ zeros d.exponent.toNat) := rfl
      rw [this]
      push_cast
      norm_num
      ring
    | false =>
      have := readUnsigned?_whole negative [] hwhole hne (by simp)
      refine ⟨_, this, rfl, ?_⟩
      rw [Parts.size, ← hvalue]
      simp
  · rename_i hexponent
    obtain ⟨places, hplaces⟩ : ∃ n, n = (-d.exponent).toNat := ⟨_, rfl⟩
    have hexponent : d.exponent = -(places : ℤ) := by omega
    rw [← hplaces]
    split
    · rename_i hlt
      refine Writes.of_point (fun c hc => hdigits c (List.mem_of_mem_take hc)) ?_
        (fun c hc => hdigits c (List.mem_of_mem_drop hc)) ?_
      · rw [Ne, List.take_eq_nil_iff]
        rintro (h | h)
        · omega
        · exact hne h
      · rw [List.take_append_drop, valueOfDigits_digitsOf, List.length_drop, Digits.value,
          hexponent]
        congr 2
        omega
    · rename_i hle
      have hfraction : ∀ c ∈ zeros (places - (digitsOf d.digits).length) ++ digitsOf d.digits,
          c.isDigit = true := by
        intro c hc
        cases List.mem_append.1 hc with
        | inl hc => exact isDigit_of_mem_zeros hc
        | inr hc => exact hdigits c hc
      have hzero : ∀ ds, valueOfDigits 0 (['0'] ++ ds) = valueOfDigits 0 ds := fun _ => rfl
      have hwhole : ∀ c ∈ ['0'], c.isDigit = true := by simp
      change Writes negative d
        (['0'] ++ '.' :: (zeros (places - (digitsOf d.digits).length) ++ digitsOf d.digits))
      apply Writes.of_point hwhole (by simp) hfraction
      rw [hzero, valueOfDigits_append, valueOfDigits_zeros, Nat.zero_mul,
        valueOfDigits_digitsOf, Digits.value, hexponent, List.length_append, zeros,
        List.length_replicate]
      congr 2
      omega

/-- The layout with an exponent keeps the value. -/
theorem writes_scientific (d : Digits) (signed : Bool) :
    Writes negative d (d.scientific signed) := by
  obtain ⟨first, rest, hds⟩ := List.exists_cons_of_ne_nil (digitsOf_ne_nil d.digits)
  have hdigits : ∀ c ∈ first :: rest, c.isDigit = true := fun c hc =>
    isDigit_of_mem_digitsOf (hds ▸ hc)
  have hfirst : ∀ c ∈ [first], c.isDigit = true := by
    simpa using hdigits first List.mem_cons_self
  have hrest : ∀ c ∈ rest, c.isDigit = true := fun c hc => hdigits c (List.mem_cons_of_mem _ hc)
  have hvalue : valueOfDigits 0 ([first] ++ rest) = d.digits := by
    rw [List.singleton_append, ← hds, valueOfDigits_digitsOf]
  have hleading : d.leading - rest.length = d.exponent := by
    rw [Digits.leading, hds, List.length_cons]
    omega
  obtain ⟨tail, htail⟩ : ∃ t, t = 'e' :: ((if d.leading < 0 then ['-'] else
    if signed then ['+'] else []) ++ digitsOf d.leading.natAbs) := ⟨_, rfl⟩
  have hplace : lastPlace? rest.length tail = some d.exponent := by
    rw [htail, lastPlace?, if_pos (.inl rfl), readExponent?_digitsOf, Option.map_some, hleading]
  unfold Digits.scientific
  dsimp only
  rw [hds]
  dsimp only
  cases rest with
  | nil =>
    have := readUnsigned?_whole negative tail hfirst (by simp) (by simp [htail])
    rw [List.length_nil] at hplace
    rw [hplace] at this
    refine ⟨_, by simpa [htail] using this, rfl, ?_⟩
    rw [List.append_nil] at hvalue
    rw [Parts.size, Digits.value, hvalue]
  | cons second rest =>
    have := readUnsigned?_point negative tail hfirst (by simp) hrest
      (by simp [htail])
    rw [hplace, hvalue] at this
    exact ⟨_, by simpa [htail] using this, rfl, rfl⟩

end Layouts

end ClauseTriage.Decimal
