import ClauseTriage.Proofs.Double.Order
import ClauseTriage.Selection.Importance

/-!
# The total order of words

Comparing doubles leaves out what is not a number and does not tell zeros of both signs apart. The total
order of the binary64 format compares all words. A word is a sign and a size. The size of a number
counts the doubles from zero to it, and the sizes of what is not a number are above all of those; so
the total order is that of the whole number that sign and size make.
-/
namespace ClauseTriage

namespace Double

open Float.Model Float.Model.UnpackedFloat
open Decimal (ofWord)

/-- How many doubles a mantissa with an exponent is above zero. -/
def stepsAbove (m : ℕ) (e : ℤ) : ℤ := (e + 1074) * 2 ^ 52 + m

/-- How many doubles an unpacked double is above zero, or below it with a minus. -/
def steps : UnpackedFloat → ℤ
  | .infinity .negative => -(2047 * 2 ^ 52)
  | .infinity .positive => 2047 * 2 ^ 52
  | u => sized stepsAbove u

section Steps

variable {m n : ℕ} {e f : ℤ} {u v : UnpackedFloat}

theorem Canonical.stepsAbove_pos (h : Canonical m e) (hm : 0 < m) : 0 < stepsAbove m e := by
  have hleast := h.least
  unfold stepsAbove
  omega

/-- A larger exponent is further from zero. -/
theorem Canonical.stepsAbove_lt (hm : Canonical m e) (hn : Canonical n f) (h : e < f) :
    stepsAbove m e < stepsAbove n f := by
  have hbelow := hm.below
  have hleast := hm.least
  have hfull := hn.full.resolve_left (by omega)
  unfold stepsAbove
  omega

theorem Canonical.compare_stepsAbove (hm : Canonical m e) (hn : Canonical n f) :
    (compare e f).then (compare m n) = compare (stepsAbove m e) (stepsAbove n f) := by
  refine compare_then Canonical.stepsAbove_lt (fun e h => ?_) hm hn
  unfold stepsAbove
  omega

theorem steps_of_isFinite (h : u.isFinite = true) : steps u = sized stepsAbove u := by
  cases u with
  | infinity s => cases h
  | _ => rfl

/-- An infinity is further from zero than every finite double. -/
theorem steps_bounds (hu : Fits u) (h : u.isFinite = true) :
    -(2047 * 2 ^ 52) < steps u ∧ steps u < 2047 * 2 ^ 52 := by
  rw [steps_of_isFinite h]
  cases u with
  | finite s m e hm =>
    obtain ⟨hcanonical, he⟩ := hu
    have hbelow := hcanonical.below
    have hleast := hcanonical.least
    cases s <;> simp only [sized, stepsAbove] <;> omega
  | _ => simp only [sized]; omega

/-- Comparing numbers compares their steps. -/
theorem compare_steps (hu : Fits u) (hv : Fits v) (hu' : u.isNaN = false) (hv' : v.isNaN = false) :
    u.compare v = some (compare (steps u) (steps v)) := by
  refine compare_of_isFinite (fun hu hv hu' hv' => ?_) steps_bounds hu hv hu' hv'
  rw [steps_of_isFinite hu', steps_of_isFinite hv']
  exact compare_sized Canonical.stepsAbove_pos Canonical.compare_stepsAbove hu hv hu' hv'

end Steps

section Words

variable {bits : ℕ}

theorem isNaN_unpacked (v : Decimal.Magnitude) :
    (unpacked v).isNaN = true ↔ v = .notANumber := by
  cases v with
  | notANumber => exact iff_of_true rfl rfl
  | infinite negative => simp [unpacked, UnpackedFloat.isNaN]
  | finite b => by_cases h : b.mantissa = 0 <;> simp [unpacked, h, UnpackedFloat.isNaN]

/-- What is not a number has a larger size than the infinities. -/
theorem ofWord_eq_notANumber : ofWord bits = .notANumber ↔ 2047 * 2 ^ 52 < bits % 2 ^ 63 := by
  rw [ofWord_eq]
  split
  · split
    · refine iff_of_false (by simp) (by omega)
    · refine iff_of_true rfl (by omega)
  · split
    · refine iff_of_false (by simp) (by omega)
    · refine iff_of_false (by simp) (by omega)

theorem steps_unpacked_infinite (negative : Bool) : steps (unpacked (.infinite negative)) =
    if negative then -(2047 * 2 ^ 52) else 2047 * 2 ^ 52 := by
  cases negative <;> rfl

theorem steps_unpacked_finite (b : Decimal.Binary) (h : b.mantissa = 0 → b.exponent = -1074) :
    steps (unpacked (.finite b)) =
      if b.negative then -stepsAbove b.mantissa b.exponent
      else stepsAbove b.mantissa b.exponent := by
  rw [unpacked]
  split
  · rename_i hzero
    rw [h hzero, hzero]
    simp [steps, sized, stepsAbove]
  · cases b.negative <;> rfl

/-- The size of a number counts its steps from zero. -/
theorem steps_ofWord (hbits : bits < 2 ^ 64) (hnumber : ofWord bits ≠ .notANumber) :
    steps (unpacked (ofWord bits)) =
      if bits < 2 ^ 63 then (bits : ℤ) else -((bits : ℤ) - 2 ^ 63) := by
  have hbit : (bits / 2 ^ 63 % 2 == 1) = decide (2 ^ 63 ≤ bits) := by
    rw [Bool.eq_iff_iff, beq_iff_eq, decide_eq_true_iff]
    omega
  rw [ofWord_eq, hbit] at hnumber ⊢
  by_cases hones : bits / 2 ^ 52 % 2 ^ 11 = 2047
  · have hzero : bits % 2 ^ 52 = 0 :=
      by_contra fun h => hnumber (by rw [if_pos hones, if_neg h])
    rw [if_pos hones, if_pos hzero, steps_unpacked_infinite]
    simp only [decide_eq_true_eq]
    omega
  · rw [if_neg hones]
    by_cases hleast : bits / 2 ^ 52 % 2 ^ 11 = 0
    · rw [if_pos hleast, steps_unpacked_finite _ fun _ => rfl]
      simp only [decide_eq_true_eq, stepsAbove]
      omega
    · rw [if_neg hleast, steps_unpacked_finite _ fun h => by dsimp only at h; omega]
      simp only [decide_eq_true_eq, stepsAbove]
      omega

end Words

end Double

open Double Float.Model

namespace Importance

/-- The word has a minus. -/
def Negative (i : Importance) : Prop := 2 ^ 63 ≤ i.word.toNat

/-- What a word carries that stands for no number. -/
def payload (i : Importance) : ℕ := i.word.toNat % 2 ^ 52

/-- The total order of words in the standard for doubles: `x` comes before `y`. -/
inductive Below (x y : Importance) : Prop
  /-- Numbers in their order. -/
  | number (h : x.value < y.value)
  /-- Of two words of one number, that with a minus comes first; only zeros have two. -/
  | zero (h : x.value == y.value) (hx : x.Negative) (hy : ¬y.Negative)
  /-- What is not a number and has a minus is below every number. -/
  | beforeNumbers (hx : x.value.isNaN) (hneg : x.Negative) (hy : y.value.isNaN = false)
  /-- What is not a number and has no minus is above every number. -/
  | afterNumbers (hx : x.value.isNaN = false) (hy : y.value.isNaN) (hpos : ¬y.Negative)
  /-- Where neither is a number, that with a minus comes first. -/
  | sign (hx : x.value.isNaN) (hy : y.value.isNaN) (hneg : x.Negative) (hpos : ¬y.Negative)
  /-- Without a minus, the one with the lesser payload comes first. -/
  | lesserPayload (hx : x.value.isNaN) (hy : y.value.isNaN) (hxpos : ¬x.Negative) (hypos : ¬y.Negative)
    (h : x.payload < y.payload)
  /-- With a minus, the one with the greater payload comes first. -/
  | greaterPayload (hx : x.value.isNaN) (hy : y.value.isNaN) (hxneg : x.Negative)
    (hyneg : y.Negative) (h : y.payload < x.payload)

variable {x y : Importance}

theorem unpack_value (x : Importance) :
    x.value.toModel.unpack = unpacked (Decimal.ofWord x.word.toNat) := by
  have hpacked : x.value =
      Float.ofModel (Float.Model.pack (UnpackedFloat.unpack Format.binary64 x.word.toBitVec)) := rfl
  rw [hpacked, unpack_ofModel_pack (unpack_eq _ ▸ fits_ofWord _), unpack_eq]
  rfl

/-- How many doubles a word that stands for a number is above zero. -/
def steps (i : Importance) : ℤ :=
  if i.word.toNat < 2 ^ 63 then (i.word.toNat : ℤ) else -((i.word.toNat : ℤ) - 2 ^ 63)

theorem isNaN_value : x.value.isNaN = true ↔ 2047 * 2 ^ 52 < x.word.toNat % 2 ^ 63 := by
  have hunpack : x.value.isNaN = x.value.toModel.unpack.isNaN := rfl
  rw [hunpack, unpack_value, isNaN_unpacked, ofWord_eq_notANumber]

theorem not_isNaN_value : x.value.isNaN = false ↔ x.word.toNat % 2 ^ 63 ≤ 2047 * 2 ^ 52 := by
  rw [← Bool.not_eq_true, isNaN_value, not_lt]

theorem steps_value (h : x.value.isNaN = false) : Double.steps x.value.toModel.unpack = x.steps := by
  have hnumber : Decimal.ofWord x.word.toNat ≠ .notANumber := by
    rw [Ne, ofWord_eq_notANumber, not_lt]
    exact not_isNaN_value.1 h
  rw [unpack_value, steps_ofWord x.word.toNat_lt hnumber, steps]

/-- Numbers compare as their steps. -/
theorem compare_value {o : Ordering} : x.value.toModel.unpack.compare y.value.toModel.unpack = some o ↔
    x.value.isNaN = false ∧ y.value.isNaN = false ∧ compare x.steps y.steps = o := by
  apply compare_eq_some_iff
  intro hx hy
  rw [compare_steps (fits_unpack _) (fits_unpack _) hx hy, steps_value hx, steps_value hy]

theorem value_lt_iff : x.value < y.value ↔
    x.value.isNaN = false ∧ y.value.isNaN = false ∧ x.steps < y.steps := by
  have hcompare : x.value < y.value ↔ x.value.toModel.unpack.lt y.value.toModel.unpack = true :=
    decide_eq_true_iff
  rw [hcompare, UnpackedFloat.lt, beq_iff_eq, compare_value, compare_lt_iff_lt]

theorem value_beq_iff : (x.value == y.value) = true ↔
    x.value.isNaN = false ∧ y.value.isNaN = false ∧ x.steps = y.steps := by
  have hcompare : (x.value == y.value) = x.value.toModel.unpack.beq y.value.toModel.unpack := rfl
  rw [hcompare, UnpackedFloat.beq, beq_iff_eq, compare_value, compare_eq_iff_eq]

theorem key_eq (x : Importance) : x.key =
    if x.word.toNat < 2 ^ 63 then (x.word.toNat : ℤ)
    else -((x.word.toNat - 2 ^ 63 : ℕ) : ℤ) - 1 := rfl

theorem Below.key_lt (h : x.Below y) : x.key < y.key := by
  have hx := x.word.toNat_lt
  have hy := y.word.toNat_lt
  rw [key_eq, key_eq]
  cases h with
  | number h =>
    obtain ⟨-, -, hlt⟩ := value_lt_iff.1 h
    unfold steps at hlt
    omega
  | zero h hneg hpos =>
    obtain ⟨-, -, heq⟩ := value_beq_iff.1 h
    unfold steps at heq
    unfold Negative at hneg hpos
    omega
  | beforeNumbers hxnan hneg hynum =>
    rw [isNaN_value] at hxnan
    rw [not_isNaN_value] at hynum
    unfold Negative at hneg
    omega
  | afterNumbers hxnum hynan hpos =>
    rw [not_isNaN_value] at hxnum
    rw [isNaN_value] at hynan
    unfold Negative at hpos
    omega
  | sign hxnan hynan hneg hpos =>
    unfold Negative at hneg hpos
    omega
  | lesserPayload hxnan hynan hxpos hypos h =>
    rw [isNaN_value] at hxnan hynan
    unfold Negative at hxpos hypos
    unfold payload at h
    omega
  | greaterPayload hxnan hynan hxneg hyneg h =>
    rw [isNaN_value] at hxnan hynan
    unfold Negative at hxneg hyneg
    unfold payload at h
    omega

theorem below_of_isNaN (hx : x.value.isNaN = true) (hy : y.value.isNaN = true)
    (h : x.key < y.key) : x.Below y := by
  have hxsize := isNaN_value.1 hx
  have hysize := isNaN_value.1 hy
  have hxword := x.word.toNat_lt
  have hyword := y.word.toNat_lt
  rw [key_eq, key_eq] at h
  by_cases hxneg : x.Negative
  · by_cases hyneg : y.Negative
    · apply Below.greaterPayload hx hy hxneg hyneg
      unfold Negative at hxneg hyneg
      unfold payload
      omega
    · exact .sign hx hy hxneg hyneg
  · have hypos : ¬y.Negative := by
      unfold Negative at *
      omega
    apply Below.lesserPayload hx hy hxneg hypos
    unfold Negative at hxneg hypos
    unfold payload
    omega

theorem below_of_not_isNaN (hx : x.value.isNaN = false) (hy : y.value.isNaN = false)
    (h : x.key < y.key) : x.Below y := by
  have hxword := x.word.toNat_lt
  have hyword := y.word.toNat_lt
  rw [key_eq, key_eq] at h
  rcases lt_trichotomy x.steps y.steps with hlt | heq | hgt
  · exact .number (value_lt_iff.2 ⟨hx, hy, hlt⟩)
  · apply Below.zero (value_beq_iff.2 ⟨hx, hy, heq⟩)
    all_goals
      unfold steps at heq
      unfold Negative
      omega
  · unfold steps at hgt
    omega

/-- The key orders words as the standard does. -/
theorem below_iff_key_lt : x.Below y ↔ x.key < y.key := by
  refine ⟨Below.key_lt, fun h => ?_⟩
  have hxword := x.word.toNat_lt
  have hyword := y.word.toNat_lt
  have hkeys := h
  rw [key_eq, key_eq] at hkeys
  cases hx : x.value.isNaN with
  | true =>
    cases hy : y.value.isNaN with
    | true => exact below_of_isNaN hx hy h
    | false =>
      refine .beforeNumbers hx ?_ hy
      rw [isNaN_value] at hx
      rw [not_isNaN_value] at hy
      unfold Negative
      omega
  | false =>
    cases hy : y.value.isNaN with
    | true =>
      refine .afterNumbers hx hy ?_
      rw [not_isNaN_value] at hx
      rw [isNaN_value] at hy
      unfold Negative
      omega
    | false => exact below_of_not_isNaN hx hy h

instance (x y : Importance) : Decidable (x.Below y) := decidable_of_iff' _ below_iff_key_lt

/-- From a quiet word with a minus that stands for no number, over both infinities and both zeros, to a
quiet one without. -/
example : List.Pairwise Below [⟨0xfff8000000000001⟩, ⟨0xfff8000000000000⟩, ⟨0xfff0000000000001⟩,
    ⟨0xfff0000000000000⟩, ofFloat (-1.5), ofFloat (-0.0), ofFloat 0.0, ofFloat 1.5,
    ⟨0x7ff0000000000000⟩, ⟨0x7ff0000000000001⟩, ⟨0x7ff8000000000000⟩, ⟨0x7ff8000000000001⟩] := by
  decide +kernel

theorem key_injective : Function.Injective key := by
  intro x y h
  have hx := x.word.toNat_lt
  have hy := y.word.toNat_lt
  rw [key_eq, key_eq] at h
  have hword : x.word = y.word := UInt64.toNat_inj.1 (by omega)
  cases x
  cases y
  exact congrArg mk hword

end Importance

end ClauseTriage
