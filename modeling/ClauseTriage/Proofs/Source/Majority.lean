import ClauseTriage.Proofs.Source.Ratio
import ClauseTriage.Proofs.Source.Statement

/-!
# The vote of a leaf and its majority

Both weights of a leaf are rounded to tenths before they are divided. Rounding keeps their order, so
a vote to keep is never against a discard majority; it keeps apart what is a tenth apart, so a keep
majority by a tenth has the vote. Above `2 ^ 49` the doubles are wider apart than that, and are read
back as they were.
-/
namespace ClauseTriage

open Decimal Code Double

namespace Double

variable {n k m : ℕ} {e : ℤ} {q r s : ℚ}

/-- Up to `2 ^ 49`, different tenths have different doubles. -/
theorem NearestDouble.lt_of_tenths (hr : NearestDouble (n / 10) r) (hs : NearestDouble (k / 10) s)
    (hnk : n < k) (hk : k ≤ 10 * 2 ^ 49) : r < s := by
  have hstep : (n : ℚ) + 1 ≤ k := by exact_mod_cast hnk
  have hbound : (k : ℚ) ≤ 10 * 2 ^ 49 := by exact_mod_cast hk
  have herror : ((2 : ℚ) ^ (-4 : ℤ)) / 2 = 1 / 32 := by norm_num
  have hlimit : (2 : ℚ) ^ (-4 + 53 : ℤ) = 2 ^ 49 := by norm_num
  have hbelow := hr.abs_sub_le (t := -4) (by norm_num) (by rw [hlimit]; linarith)
  rw [herror] at hbelow
  have hrhigh := (abs_le.1 hbelow).1
  by_cases hlast : (k : ℚ) < 10 * 2 ^ 49
  · have habove := hs.abs_sub_le (t := -4) (by norm_num) (by rw [hlimit]; linarith)
    rw [herror] at habove
    have hslow := (abs_le.1 habove).2
    linarith
  · have hslow : 2 ^ 49 ≤ s := by
      have := hs.two_zpow_le (t := 49) (by norm_num) (by norm_num; linarith)
      exact_mod_cast this
    linarith

/-- Above `2 ^ 49`, what is at most half a tenth away lies in the interval of a double. -/
theorem Canonical.roundsTo_of_large (hc : Canonical m e) (hlarge : 2 ^ 49 < (m * 2 ^ e : ℚ))
    (h : |m * 2 ^ e - q| ≤ 1 / 20) : RoundsTo m e q := by
  have hexponent : -3 ≤ e := by
    by_contra hlow
    have : (2 ^ 49 : ℚ) < 2 ^ 49 := calc
      (2 ^ 49 : ℚ) < m * 2 ^ e := hlarge
      _ < 2 ^ (e + 53) := hc.lt_two_zpow
      _ ≤ 2 ^ (49 : ℤ) := zpow_le_zpow_right₀ (by norm_num) (by omega)
      _ = 2 ^ 49 := by norm_num
    exact this.false
  -- the quarter below a power of two is narrower than a tenth for that power only
  have hgap : 1 / 16 ≤ (if m = 2 ^ 52 ∧ -1074 < e then 1 / 4 else 1 / 2 : ℚ) * 2 ^ e := by
    split
    · rename_i hfirst
      have hne : e ≠ -3 := by
        rintro rfl
        rw [hfirst.1] at hlarge
        norm_num at hlarge
      have hstep : (2 : ℚ) ^ (-2 : ℤ) ≤ 2 ^ e := zpow_le_zpow_right₀ (by norm_num) (by omega)
      norm_num at hstep
      linarith
    · have hstep : (2 : ℚ) ^ (-3 : ℤ) ≤ 2 ^ e := zpow_le_zpow_right₀ (by norm_num) hexponent
      norm_num at hstep
      linarith
  have hhalf : (if m = 2 ^ 52 ∧ -1074 < e then 1 / 4 else 1 / 2 : ℚ) * 2 ^ e ≤ 1 / 2 * 2 ^ e := by
    have := (two_zpow_pos e).le
    gcongr
    split <;> norm_num
  obtain ⟨hlow, hhigh⟩ := abs_le.1 h
  refine ⟨?_, ?_, fun _ => ⟨?_, ?_⟩⟩
  · rw [sub_mul]
    linarith
  · rw [add_mul]
    linarith
  · rw [sub_mul]
    linarith
  · rw [add_mul]
    linarith

/-- No two doubles are a tenth apart: a tenth has no finite binary expansion. -/
theorem value_sub_ne_tenth (x y : Float) : value y - value x ≠ 1 / 10 := by
  obtain ⟨k, hk⟩ := exists_units x
  obtain ⟨l, hl⟩ := exists_units y
  obtain ⟨p, hp⟩ : ∃ p : ℕ, unit = ((2 : ℚ) ^ p)⁻¹ := ⟨1074, by
    rw [unit, ← zpow_natCast, ← zpow_neg]
    rfl⟩
  intro h
  rw [hk, hl, ← sub_mul, hp, ← div_eq_mul_inv, div_eq_div_iff (by positivity) (by norm_num),
    one_mul] at h
  have hpower : (l - k) * 10 = (2 : ℤ) ^ p := by exact_mod_cast h
  have hfive : (5 : ℤ) ∣ 2 ^ p := hpower ▸ Dvd.dvd.mul_left (by decide) (l - k)
  exact absurd (Int.Prime.dvd_pow' Nat.prime_five hfive) (by decide)

end Double

/-- A number of tenths with one decimal. -/
def tenthsText (n : ℕ) : String := Text.nat (n / 10) ++ "." ++ Text.nat (n % 10)

/-- A double is written as the number of tenths nearest to its exact value, the even one of two, and
read as the double nearest to these. Only minus zero keeps a sign. -/
structure Tenths (x : Float) (n : ℕ) : Prop where
  nearest : Nearest (10 * value x) n
  text : fixed 1 x = tenthsText n ∨ x = -0.0 ∧ fixed 1 x = "-0.0"
  finite : (oneDecimal x).isFinite = true
  read : NearestDouble (n / 10) (value (oneDecimal x))

/-- A double is written as a zero of either sign. -/
def WrittenAsZero (x : Float) : Prop := fixed 1 x = "0.0" ∨ fixed 1 x = "-0.0"

section Weights

variable {x y : Float} {b : Binary} {n k : ℕ}

theorem units_le_largest (hb : magnitude x = .finite b) : (b.units 1 / 10 : ℚ) ≤ largest := by
  obtain ⟨l, hl⟩ : ∃ l : ℕ, largest = l := by
    refine ⟨(2 ^ 53 - 1) * 2 ^ 971, ?_⟩
    rw [largest, Nat.cast_mul, Nat.cast_pow, ← zpow_natCast, Nat.cast_ofNat, Nat.cast_ofNat]
  have hsize : b.size ≤ largest := abs_value_eq_size hb ▸ abs_value_le x
  have hunits : b.units 1 ≤ 10 * l := by
    apply (nearest_tenths b).le_of_le
    push_cast
    rw [← hl]
    linarith
  have : (b.units 1 : ℚ) ≤ 10 * l := by exact_mod_cast hunits
  rw [hl]
  linarith

/-- The tenths that are written are read as the double nearest to them. -/
theorem nearest_oneDecimal (hb : magnitude x = .finite b) :
    (oneDecimal x).isFinite = true ∧ ∃ r, NearestDouble (b.units 1 / 10) r ∧
      value (oneDecimal x) = signed (Double.signOf b.negative) r := by
  rw [oneDecimal_eq hb]
  by_cases hzero : b.units 1 = 0
  · have hunpack := Parts.toFloat_zero (p := ⟨b.negative, b.units 1, -1⟩) hzero
    refine ⟨?_, 0, ?_, ?_⟩
    · rw [isFinite_unpack, hunpack]
      rfl
    · rw [hzero, Nat.cast_zero, zero_div]
      exact .zero
    · rw [value, hunpack]
      cases b.negative <;> simp [number, signed, Double.signOf]
  · have hone : (1 : ℚ) ≤ b.units 1 := by exact_mod_cast Nat.pos_of_ne_zero hzero
    have hunit : unit ≤ 1 / 10 := by
      have : unit ≤ 2 ^ (-4 : ℤ) := zpow_le_zpow_right₀ (by norm_num) (by norm_num)
      norm_num at this
      linarith
    have := Parts.nearest_toFloat (p := ⟨b.negative, b.units 1, -1⟩)
    rw [size_tenths] at this
    exact this (by linarith) (units_le_largest hb)

theorem unitsText_one (n : ℕ) : String.ofList (unitsText 1 n) = tenthsText n := by
  have hlength : (digitsOf (n % 10)).length = 1 :=
    le_antisymm ((Nat.length_toDigits_le_iff (by decide) one_pos).2 (Nat.mod_lt n (by decide)))
      Nat.length_toDigits_pos
  have hten : pow10 1 = 10 := rfl
  rw [tenthsText, unitsText, hten, hlength]
  simp [Text.nat, zeros, digitsOf, String.append_assoc]

theorem tenths_of_positive (hb : magnitude x = .finite b) (hsign : b.negative = false) :
    Tenths x (b.units 1) := by
  have hvalue : value x = b.size := by
    rw [value_of_magnitude hb, hsign]
    rfl
  obtain ⟨hfinite, r, hr, hread⟩ := nearest_oneDecimal hb
  rw [hsign] at hread
  refine ⟨?_, .inl ?_, hfinite, ?_⟩
  · rw [hvalue]
    exact nearest_tenths b
  · rw [fixed, fixedChars, hb]
    dsimp only
    rw [hsign, ← unitsText_one]
    rfl
  · rwa [hread]

theorem tenths_minus_zero : Tenths (-0.0) 0 := by
  have hzero : value (-0.0) = 0 := by
    rw [value, unpack_minus_zero]
    rfl
  have hread : oneDecimal (-0.0) = -0.0 :=
    oneDecimal_of_zero (b := ⟨true, 0, -1074⟩) (by decide +kernel) rfl
  refine ⟨?_, .inr ⟨rfl, by decide +kernel⟩, ?_, ?_⟩
  · rw [hzero, mul_zero]
    exact_mod_cast nearest_natCast 0
  · rw [hread, isFinite_unpack, unpack_minus_zero]
    rfl
  · rw [hread, hzero, Nat.cast_zero, zero_div]
    exact .zero

/-- A double with a sign that is not below zero is minus zero. -/
theorem eq_minus_zero (hb : magnitude x = .finite b) (hsign : b.negative = true)
    (h0 : 0 ≤ value x) : x = -0.0 := by
  have hvalue : value x = -b.size := by
    rw [value_of_magnitude hb, hsign]
    rfl
  have hzero : b.mantissa = 0 := by
    by_contra hne
    have hpos : 0 < b.size := size_pos b.exponent (Nat.pos_of_ne_zero hne)
    linarith
  apply ext_unpack
  rw [unpack_toModel x, hb, unpacked, dif_pos hzero, hsign, unpack_minus_zero]
  rfl

/-- Every weight is written in tenths. -/
theorem exists_tenths (hx : x.isFinite = true) (h0 : 0 ≤ value x) : ∃ n, Tenths x n := by
  obtain ⟨b, hb⟩ := isFinite_iff.1 hx
  cases hsign : b.negative with
  | false => exact ⟨_, tenths_of_positive hb hsign⟩
  | true => exact ⟨0, eq_minus_zero hb hsign h0 ▸ tenths_minus_zero⟩

/-- Above `2 ^ 49`, weights are read back as they were. -/
theorem oneDecimal_of_large (hx : x.isFinite = true) (hlarge : 2 ^ 49 < value x) :
    oneDecimal x = x := by
  obtain ⟨b, hb⟩ := isFinite_iff.1 hx
  have hsize : 2 ^ 49 < b.size := abs_value_eq_size hb ▸ hlarge.trans_le (le_abs_self _)
  have hne : b.mantissa ≠ 0 := by
    intro hzero
    rw [Binary.size, hzero, Nat.cast_zero, zero_mul] at hsize
    norm_num at hsize
  have hdistance : |b.size - b.units 1 / 10| ≤ 1 / 20 := by
    obtain ⟨hlow, hhigh⟩ := abs_le.1 (nearest_tenths b).1
    exact abs_le.2 ⟨by linarith, by linarith⟩
  exact oneDecimal_of_roundsTo hb hne
    ((canonical_of_magnitude hb).1.roundsTo_of_large hsize hdistance)

/-- Rounding to tenths keeps the order of weights. -/
theorem Tenths.oneDecimal_le (hn : Tenths x n) (hk : Tenths y k) (h : value x ≤ value y) :
    value (oneDecimal x) ≤ value (oneDecimal y) := by
  have hnk : (n : ℚ) ≤ k := by
    exact_mod_cast hn.nearest.mono hk.nearest (mul_le_mul_of_nonneg_left h (by norm_num))
  exact hn.read.mono hk.read (div_le_div_of_nonneg_right hnk (by norm_num))

/-- Rounding to tenths keeps apart what is a tenth apart. -/
theorem Tenths.oneDecimal_lt (hn : Tenths x n) (hk : Tenths y k) (hx : x.isFinite = true)
    (hy : y.isFinite = true) (h : 1 / 10 ≤ value y - value x) :
    value (oneDecimal x) < value (oneDecimal y) := by
  have hstrict : 1 / 10 < value y - value x := h.lt_of_ne (value_sub_ne_tenth x y).symm
  by_cases hxlarge : 2 ^ 49 < value x
  · rw [oneDecimal_of_large hx hxlarge, oneDecimal_of_large hy (by linarith)]
    linarith
  by_cases hylarge : 2 ^ 49 < value y
  · have htenths : (n : ℚ) ≤ 10 * 2 ^ 49 := by
      have : n ≤ 10 * 2 ^ 49 := hn.nearest.le_of_le (by push_cast; linarith)
      exact_mod_cast this
    have hread := hn.read.le_two_zpow (t := 49) (by norm_num) (by norm_num; linarith)
    rw [oneDecimal_of_large hy hylarge]
    exact hread.trans_lt (by exact_mod_cast hylarge)
  · have htenths : k ≤ 10 * 2 ^ 49 := hk.nearest.le_of_le (by push_cast; linarith)
    have hnk : n < k := by
      have hnhigh := (abs_le.1 hn.nearest.1).1
      have hklow := (abs_le.1 hk.nearest.1).2
      have : (n : ℚ) < k := by linarith
      exact_mod_cast this
    exact hn.read.lt_of_tenths hk.read hnk htenths

/-- What is read as a zero is what was written as one. -/
theorem Tenths.oneDecimal_eq_zero_iff (hn : Tenths x n) :
    (oneDecimal x == 0.0) = true ↔ WrittenAsZero x := by
  constructor
  · intro hzero
    rw [beq_iff hn.finite zero_finite, value_zero] at hzero
    have hnone : n = 0 := by
      by_contra hne
      have hone : (1 : ℚ) ≤ n := by exact_mod_cast Nat.pos_of_ne_zero hne
      have hread := hn.read.two_zpow_le (t := -4) (by norm_num) (by norm_num; linarith)
      rw [hzero] at hread
      norm_num at hread
    rcases hn.text with htext | ⟨-, htext⟩
    · left
      rw [htext, hnone]
      rfl
    · exact .inr htext
  · have hread : ∀ text : String, (readChars? text.toList).any (· == 0.0) = true →
        fixed 1 x = text → (oneDecimal x == 0.0) = true := by
      intro text hzero htext
      have hchars : fixedChars 1 x = text.toList := by rw [← htext, fixed, String.toList_ofList]
      obtain ⟨d, hd, hzero⟩ := (Option.any_eq_true _ _).1 hzero
      rw [oneDecimal, hchars, hd, Option.getD_some]
      exact hzero
    rintro (htext | htext)
    · exact hread _ (by decide +kernel) htext
    · exact hread _ (by decide +kernel) htext

end Weights

section Leaves

variable {w : Weights Float} {k : ℕ}

/-- Only the literal of a quotient has a stroke. -/
theorem leafLiteral_eq_one_iff (hk : Tenths w.keep k) :
    leafLiteral w = "1" ↔ WrittenAsZero w.keep := by
  rw [← hk.oneDecimal_eq_zero_iff, leafLiteral]
  split
  · rename_i hzero
    exact iff_of_true rfl hzero
  · rename_i hsome
    refine iff_of_false (fun hone => ?_) hsome
    have hstroke : '/' ∈ (fixed 1 w.discard ++ "/" ++ fixed 1 w.keep).toList := by simp
    rw [hone] at hstroke
    exact absurd hstroke (by decide)

/-- A vote to keep is never against a discard majority, and a keep majority by a tenth has it. The
literal has the value of the ratio; it is one where the keep weight is written as a zero, and else
the quotient of the two decimals as they are written, in the tenths nearest to the weights. -/
theorem leaf_votes_with_majority (hdiscard : w.discard.isFinite = true)
    (hkeep : w.keep.isFinite = true) (hdiscard0 : 0 ≤ value w.discard)
    (hkeep0 : 0 ≤ value w.keep) :
    (leafRatio w < 1.0 → w.heavier = 1) ∧
    (1 / 10 ≤ value w.keep - value w.discard → leafRatio w < 1.0) ∧
    Source.ratioOf? (leafLiteral w).toList = some (leafRatio w) ∧
    (leafLiteral w = "1" ↔ WrittenAsZero w.keep) ∧
    (¬ WrittenAsZero w.keep → leafLiteral w = fixed 1 w.discard ++ "/" ++ fixed 1 w.keep ∧
      ∃ d k, read? (fixed 1 w.discard) = some d ∧ read? (fixed 1 w.keep) = some k ∧
        leafRatio w = d / k) ∧
    ∀ x ∈ w.toList, ∃ n, Tenths x n := by
  obtain ⟨n, hn⟩ := exists_tenths hdiscard hdiscard0
  obtain ⟨k, hk⟩ := exists_tenths hkeep hkeep0
  rw [leafRatio_lt_one_iff hn.finite hk.finite hn.read.nonneg hk.read.nonneg,
    heavier_eq_one_iff hdiscard hkeep]
  refine ⟨fun hless => ?_, hn.oneDecimal_lt hk hdiscard hkeep,
    Source.ratioOf?_leafLiteral hdiscard hkeep, leafLiteral_eq_one_iff hk, fun hne => ?_, ?_⟩
  · by_contra hmajority
    exact hless.not_ge (hk.oneDecimal_le hn (not_lt.1 hmajority))
  · rw [← hk.oneDecimal_eq_zero_iff] at hne
    have hread : ∀ x : Float, x.isFinite = true → read? (fixed 1 x) = some (oneDecimal x) := by
      intro x hx
      rw [read?, fixed, String.toList_ofList]
      exact Source.readChars?_oneDecimal hx
    rw [leafLiteral, leafRatio, if_neg hne, if_neg hne]
    exact ⟨rfl, _, _, hread _ hdiscard, hread _ hkeep, rfl⟩
  · simp only [Weights.toList, List.forall_mem_cons]
    exact ⟨⟨n, hn⟩, ⟨k, hk⟩, by simp⟩

/-- A tie goes to the even tenth, and the eighth between the weights is enough for a vote. -/
theorem leaf_votes_with_majority_eighth :
    leafLiteral ⟨0.25, 0.375⟩ = "0.2/0.4" ∧ leafRatio ⟨0.25, 0.375⟩ < 1.0 ∧
      (⟨0.25, 0.375⟩ : Weights Float).heavier = 1 ∧ ∃ n, Tenths 0.25 n := by
  have hdiscard : value 0.25 = 1 / 4 := by
    have hb : magnitude 0.25 = .finite ⟨false, 2 ^ 52, -54⟩ := by decide +kernel
    rw [value_of_magnitude hb]
    norm_num [signed, Double.signOf]
  have hkeep : value 0.375 = 3 / 8 := by
    have hb : magnitude 0.375 = .finite ⟨false, 3 * 2 ^ 51, -54⟩ := by decide +kernel
    rw [value_of_magnitude hb]
    norm_num [signed, Double.signOf]
  obtain ⟨hmajority, hvote, -, -, -, htenths⟩ := leaf_votes_with_majority (w := ⟨0.25, 0.375⟩)
    (by decide +kernel) (by decide +kernel) (by rw [hdiscard]; norm_num) (by rw [hkeep]; norm_num)
  have hratio := hvote (by rw [hdiscard, hkeep]; norm_num)
  exact ⟨by decide +kernel, hratio, hmajority hratio, htenths 0.25 (by simp [Weights.toList])⟩

/-- A keep majority by less than a tenth can lose its vote. -/
example : (⟨0.875, 0.9375⟩ : Weights Float).heavier = 1 ∧
    leafLiteral ⟨0.875, 0.9375⟩ = "0.9/0.9" ∧ votesKeep ⟨0.875, 0.9375⟩ = false := by
  decide +kernel

end Leaves

end ClauseTriage
