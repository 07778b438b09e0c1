import ClauseTriage.Proofs.Decimal.RoundTrip
import ClauseTriage.Proofs.Double.Nearest

/-!
# Fixed places are rounded and read back

The units that a double is written in are the nearest integer to its exact value. What is written
is read as these units, and so as the double nearest to them.
-/
namespace ClauseTriage.Decimal

open Double

section Units

variable {b : Binary} {n : ℕ}

theorem Binary.ratio_pos (b : Binary) : 0 < b.ratio.2 := by
  unfold Binary.ratio
  split
  · exact Nat.one_pos
  · exact pow2_pos _

/-- The quotient of natural numbers is the size. -/
theorem Binary.ratio_eq (b : Binary) : (b.ratio.1 : ℚ) = b.size * b.ratio.2 := by
  unfold Binary.ratio Binary.size
  split
  · rename_i hexponent
    push_cast
    rw [cast_pow2, ← zpow_natCast, Int.toNat_of_nonneg hexponent, mul_one]
  · rename_i hexponent
    dsimp only
    rw [cast_pow2, mul_assoc, zpow_mul_pow_toNat (by norm_num),
      Int.toNat_of_nonpos (by omega), pow_zero, mul_one]

theorem Binary.size_nonneg (b : Binary) : 0 ≤ b.size :=
  mul_nonneg (Nat.cast_nonneg _) (two_zpow_pos _).le

/-- The exact value is rounded to the nearest unit, and to the even one of two. -/
theorem Binary.nearest_units (b : Binary) (places : ℕ) :
    Nearest (b.size * 10 ^ places) (b.units places) := by
  have hpos : (b.ratio.2 : ℚ) ≠ 0 := by exact_mod_cast b.ratio_pos.ne'
  have := nearest_roundDiv (b.ratio.1 * pow10 places) b.ratio_pos
  rwa [Nat.cast_mul, cast_pow10, b.ratio_eq, mul_right_comm, mul_div_cancel_right₀ _ hpos] at this

/-- A whole number has no fraction at any number of places. -/
theorem Binary.units_of_size (h : b.size = n) (places : ℕ) :
    b.units places = n * pow10 places := by
  have hexact : b.size * 10 ^ places = (n * pow10 places : ℕ) := by
    push_cast
    rw [h, cast_pow10]
  have hnearest := b.nearest_units places
  rw [hexact] at hnearest
  exact hnearest.unique (nearest_natCast _)

end Units

section Reading

variable {p : Parts}

/-- A decimal within the range of doubles is read as the one nearest to it. -/
theorem Parts.nearest_toFloat (hlow : unit ≤ p.size) (hhigh : p.size ≤ largest) :
    p.toFloat.isFinite = true ∧
      ∃ r, NearestDouble p.size r ∧ value p.toFloat = signed (Double.signOf p.negative) r := by
  obtain ⟨m, e, hm, hc, he, hround, hnearest⟩ := exists_nearestDouble hlow hhigh
  have hunpack := Parts.unpack_toFloat hround hc he hm
  refine ⟨?_, _, hnearest, ?_⟩
  · rw [isFinite_unpack, hunpack]
    rfl
  · rw [value, hunpack]
    rfl

end Reading

section Texts

variable {places : ℕ} {x : Float} {b : Binary}

/-- The digits of a fraction fill its places. -/
theorem length_fraction (hplaces : 0 < places) (units : ℕ) :
    (zeros (places - (digitsOf (units % pow10 places)).length) ++
      digitsOf (units % pow10 places)).length = places := by
  have hle : (digitsOf (units % pow10 places)).length ≤ places :=
    (Nat.length_toDigits_le_iff (by decide) hplaces).2 (Nat.mod_lt _ (pow10_pos places))
  rw [List.length_append, zeros, List.length_replicate]
  omega

theorem valueOfDigits_start (start : ℕ) (ds : List Char) :
    valueOfDigits start ds = 10 ^ ds.length * start + valueOfDigits 0 ds :=
  Nat.ofDigitChars_eq_ofDigitChars_zero

theorem valueOfDigits_fixed (hplaces : 0 < places) (units : ℕ) :
    valueOfDigits 0 (digitsOf (units / pow10 places) ++
      (zeros (places - (digitsOf (units % pow10 places)).length) ++
        digitsOf (units % pow10 places))) = units := by
  rw [valueOfDigits_append, valueOfDigits_digitsOf, valueOfDigits_start, length_fraction hplaces,
    valueOfDigits_append, valueOfDigits_zeros, Nat.zero_mul, valueOfDigits_digitsOf]
  exact Nat.div_add_mod units (pow10 places)

/-- What is written with fixed places is read as the units with a power of ten. -/
theorem readChars?_fixedChars (hplaces : 0 < places) (hb : magnitude x = .finite b) :
    readChars? (fixedChars places x) =
      some (Parts.toFloat ⟨b.negative, b.units places, -places⟩) := by
  have hwhole : ∀ c ∈ digitsOf (b.units places / pow10 places), c.isDigit = true :=
    fun c hc => isDigit_of_mem_digitsOf hc
  have hfraction : ∀ c ∈ zeros (places - (digitsOf (b.units places % pow10 places)).length) ++
      digitsOf (b.units places % pow10 places), c.isDigit = true := by
    intro c hc
    cases List.mem_append.1 hc with
    | inl hc => exact isDigit_of_mem_zeros hc
    | inr hc => exact isDigit_of_mem_digitsOf hc
  have hread := readUnsigned?_point b.negative [] hwhole (digitsOf_ne_nil _) hfraction (by simp)
  rw [List.append_nil, valueOfDigits_fixed hplaces, length_fraction hplaces] at hread
  have htext : fixedChars places x = signOf b.negative ++
      (digitsOf (b.units places / pow10 places) ++ '.' ::
        (zeros (places - (digitsOf (b.units places % pow10 places)).length) ++
          digitsOf (b.units places % pow10 places))) := by
    rw [fixedChars, hb, ← List.cons_append, ← List.append_assoc (digitsOf _)]
    rfl
  rw [readChars?, htext, numeral?_signOf b.negative hread]
  rfl

end Texts

end ClauseTriage.Decimal
