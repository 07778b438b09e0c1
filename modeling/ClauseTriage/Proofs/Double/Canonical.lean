import ClauseTriage.Decimal.Binary
import Mathlib

/-!
# Words of doubles

A double in the logical model is a word of 64 bits; unpacked, it is a word for what is not finite, a
signed zero, or a mantissa with an exponent. The two forms carry the same information, and the exact
value that decimals are made from is the second one.
-/
namespace ClauseTriage.Double

open Float.Model Float.Model.UnpackedFloat
open Decimal (Binary Magnitude ofWord magnitude)

/-- Mantissa and exponent of a finite double, as its word stores them: only the least exponent has
mantissas below `2 ^ 52`. -/
structure Canonical (m : Nat) (e : Int) : Prop where
  below : m < 2 ^ 53
  least : -1074 ≤ e
  full : e = -1074 ∨ 2 ^ 52 ≤ m

/-- What a word of a double can hold. -/
def Fits : UnpackedFloat → Prop
  | .finite _ m e _ => Canonical m e ∧ e ≤ 971
  | _ => True

def signOf (negative : Bool) : Sign := if negative then .negative else .positive

/-- A magnitude in the form of the logical model. -/
def unpacked : Magnitude → UnpackedFloat
  | .notANumber => .notANumber
  | .infinite negative => .infinity (signOf negative)
  | .finite b =>
    if h : b.mantissa = 0 then .zero (signOf b.negative)
    else .finite (signOf b.negative) b.mantissa b.exponent (Nat.pos_of_ne_zero h)

/-- The fields of a word, with their sizes written out. -/
theorem ofWord_eq (bits : Nat) : ofWord bits =
    if bits / 2 ^ 52 % 2 ^ 11 = 2047 then
      if bits % 2 ^ 52 = 0 then .infinite (bits / 2 ^ 63 % 2 == 1) else .notANumber
    else if bits / 2 ^ 52 % 2 ^ 11 = 0 then
      .finite ⟨bits / 2 ^ 63 % 2 == 1, bits % 2 ^ 52, -1074⟩
    else
      .finite ⟨bits / 2 ^ 63 % 2 == 1, 2 ^ 52 + bits % 2 ^ 52,
        ((bits / 2 ^ 52 % 2 ^ 11 : Nat) : Int) - 1075⟩ := rfl

section Words

variable (b : BitVec 64)

theorem toNat_unpackMantissa :
    (@unpackMantissa Format.binary64 b).toNat = b.toNat % 2 ^ 52 := by
  simp [unpackMantissa]

theorem toNat_unpackExponent :
    (@unpackExponent Format.binary64 b).toNat = b.toNat / 2 ^ 52 % 2 ^ 11 := by
  simp [unpackExponent, Nat.shiftRight_eq_div_pow]

theorem ofBitVec_unpackSign :
    Sign.ofBitVec (@unpackSign Format.binary64 b) =
      signOf (b.toNat / 2 ^ 63 % 2 == 1) := by
  have hsign : (@unpackSign Format.binary64 b).toNat = b.toNat / 2 ^ 63 % 2 := by
    simp [unpackSign, Nat.shiftRight_eq_div_pow]
  rw [← hsign]
  generalize @unpackSign Format.binary64 b = sign
  have := sign.isLt
  have hbit : sign = 0#1 ∨ sign = 1#1 := by
    rw [← BitVec.toNat_inj, ← BitVec.toNat_inj]
    simp
    omega
  rcases hbit with rfl | rfl <;> rfl

/-- Unpacking a word reads off the magnitude that decimals are made from. -/
theorem unpack_eq : UnpackedFloat.unpack Format.binary64 b = unpacked (ofWord b.toNat) := by
  have hm := toNat_unpackMantissa b
  have he := toNat_unpackExponent b
  have hones : (@unpackExponent Format.binary64 b = -1#_) ↔
      b.toNat / 2 ^ 52 % 2 ^ 11 = 2047 := by
    rw [← BitVec.toNat_inj, he]
    simp
  have hzero : (@unpackExponent Format.binary64 b = 0#_) ↔
      b.toNat / 2 ^ 52 % 2 ^ 11 = 0 := by
    rw [← BitVec.toNat_inj, he]
    simp
  have hmzero : (@unpackMantissa Format.binary64 b = 0#_) ↔ b.toNat % 2 ^ 52 = 0 := by
    rw [← BitVec.toNat_inj, hm]
    simp
  have hfull : (1#1 ++ @unpackMantissa Format.binary64 b).toNat =
      2 ^ 52 + b.toNat % 2 ^ 52 := by
    rw [BitVec.toNat_append, ← Nat.shiftLeft_add_eq_or_of_lt (BitVec.isLt _), hm]
    simp [Nat.shiftLeft_eq]
  have hbias : Format.binary64.exponentBias = 1023 := by decide
  rw [UnpackedFloat.unpack, ofWord_eq]
  simp only [ofBitVec_unpackSign, hones, hzero, hmzero, hfull, hm, he, hbias]
  by_cases hinfinite : b.toNat / 2 ^ 52 % 2 ^ 11 = 2047
  · simp only [if_pos hinfinite]
    by_cases hfraction : b.toNat % 2 ^ 52 = 0
    · simp only [if_pos hfraction, unpacked]
    · simp only [if_neg hfraction, unpacked]
  simp only [if_neg hinfinite]
  by_cases hleast : b.toNat / 2 ^ 52 % 2 ^ 11 = 0
  · simp only [if_pos hleast, unpacked]
    by_cases hfraction : b.toNat % 2 ^ 52 = 0
    · simp only [dif_pos hfraction]
    · simp only [dif_neg hfraction, hleast]
      rfl
  · simp only [if_neg hleast]
    rw [unpacked, dif_neg (by dsimp only; omega)]
    congr 1

/-- The exact value of a word is canonical. -/
theorem canonical_of_ofWord {bits : Nat} {v : Binary} (h : ofWord bits = .finite v) :
    Canonical v.mantissa v.exponent ∧ v.exponent ≤ 971 := by
  rw [ofWord_eq] at h
  split at h
  · split at h <;> cases h
  split at h
  · cases h
    exact ⟨⟨by dsimp only; omega, le_refl _, .inl rfl⟩, by dsimp only; omega⟩
  · cases h
    refine ⟨⟨?_, ?_, .inr ?_⟩, ?_⟩ <;> dsimp only <;> omega

theorem fits_ofWord (bits : Nat) : Fits (unpacked (ofWord bits)) := by
  cases h : ofWord bits with
  | notANumber => trivial
  | infinite negative => trivial
  | finite v =>
    rw [unpacked]
    split
    · trivial
    · exact canonical_of_ofWord h

end Words

section Packing

/-- The fields of a packed word do not overlap. -/
theorem toNat_packComponents (s : Sign) (e : BitVec 11) (m : BitVec 52) :
    (packComponents Format.binary64 s e m).toNat =
      s.toBitVec.toNat * 2 ^ 63 + e.toNat * 2 ^ 52 + m.toNat := by
  rw [packComponents, BitVec.toNat_append, BitVec.toNat_append,
    ← Nat.shiftLeft_add_eq_or_of_lt m.isLt, ← Nat.shiftLeft_add_eq_or_of_lt e.isLt]
  simp only [Nat.shiftLeft_eq]
  omega

theorem log2_eq_iff {m : Nat} (hm : 0 < m) (hbelow : m < 2 ^ 53) :
    m.log2 + 1 = 53 ↔ 2 ^ 52 ≤ m := by
  have hlt := (Nat.log2_lt hm.ne').2 hbelow
  have hle := Nat.le_log2 (k := 52) hm.ne'
  omega

/-- The word of a finite double. -/
theorem toNat_pack_finite {s : Sign} {m : Nat} {e : Int} (hm : 0 < m) (hc : Canonical m e)
    (he : e ≤ 971) :
    (UnpackedFloat.pack Format.binary64 (.finite s m e hm)).toNat =
      s.toBitVec.toNat * 2 ^ 63 +
        (if 2 ^ 52 ≤ m then (e + 1075).toNat * 2 ^ 52 + (m - 2 ^ 52) else m) := by
  have hlog := log2_eq_iff hm hc.below
  have hbelow := hc.below
  have hleast := hc.least
  have hbias : Format.binary64.exponentBias = 1023 := by decide
  have hbits : Format.binary64.mantissaBits = 53 := by decide
  have hbiased : (e + ((1023 : Nat) : Int) + ((52 : Nat) : Int)).toNat = (e + 1075).toNat := by
    omega
  simp only [UnpackedFloat.pack, hbias, hbits, hbiased]
  rw [if_neg (by omega)]
  split
  · rename_i hfull
    have hfull := hlog.1 hfull
    rw [if_pos hfull, toNat_packComponents, BitVec.toNat_ofNat, BitVec.toNat_ofNat,
      Nat.mod_eq_of_lt (a := (e + 1075).toNat) (by omega),
      Nat.mod_eq_sub_mod hfull, Nat.mod_eq_of_lt (a := m - 2 ^ 52) (by omega)]
    omega
  · rename_i hfull
    rw [hlog] at hfull
    rw [if_neg hfull, toNat_packComponents, BitVec.toNat_ofNat, BitVec.toNat_ofNat,
      Nat.mod_eq_of_lt (a := m) (by omega)]
    omega

@[simp] theorem signOf_toBitVec (s : Sign) : signOf (s.toBitVec.toNat == 1) = s := by
  cases s <;> rfl

/-- Packing loses nothing of what fits. -/
theorem unpack_pack {u : UnpackedFloat} (hu : Fits u) :
    UnpackedFloat.unpack Format.binary64 (UnpackedFloat.pack Format.binary64 u) = u := by
  rw [unpack_eq]
  cases u with
  | notANumber => rfl
  | infinity s => cases s <;> rfl
  | zero s => cases s <;> rfl
  | finite s m e hm =>
    obtain ⟨hc, he⟩ := hu
    have hbelow := hc.below
    have hleast := hc.least
    have hfull := hc.full
    have hbit : s.toBitVec.toNat < 2 := BitVec.isLt _
    rw [toNat_pack_finite hm hc he, ofWord_eq]
    split
    · rename_i hnormal
      generalize hword : s.toBitVec.toNat * 2 ^ 63 +
        ((e + 1075).toNat * 2 ^ 52 + (m - 2 ^ 52)) = word
      have hsign : word / 2 ^ 63 % 2 = s.toBitVec.toNat := by omega
      have hbiased : word / 2 ^ 52 % 2 ^ 11 = (e + 1075).toNat := by omega
      have hfraction : word % 2 ^ 52 = m - 2 ^ 52 := by omega
      rw [hsign, hbiased, hfraction, if_neg (by omega), if_neg (by omega), unpacked,
        dif_neg (by dsimp only; omega)]
      simp only [signOf_toBitVec, UnpackedFloat.finite.injEq, true_and]
      omega
    · rename_i hsmall
      generalize hword : s.toBitVec.toNat * 2 ^ 63 + m = word
      have hsign : word / 2 ^ 63 % 2 = s.toBitVec.toNat := by omega
      have hbiased : word / 2 ^ 52 % 2 ^ 11 = 0 := by omega
      have hfraction : word % 2 ^ 52 = m := by omega
      rw [hsign, hbiased, hfraction, if_neg (by decide), if_pos rfl, unpacked,
        dif_neg (by dsimp only; omega)]
      simp only [signOf_toBitVec, UnpackedFloat.finite.injEq, true_and]
      omega

theorem toNat_toBitVec_signOf (k : Nat) : (signOf (k % 2 == 1)).toBitVec.toNat = k % 2 := by
  rcases Nat.mod_two_eq_zero_or_one k with h | h <;> rw [h] <;> rfl

/-- Unpacking loses nothing of a word that can be a double. -/
theorem pack_unpack {b : BitVec 64} (hb : Format.binary64.Valid b) :
    UnpackedFloat.pack Format.binary64 (UnpackedFloat.unpack Format.binary64 b) = b := by
  have hword := b.isLt
  by_cases hnan : b.toNat / 2 ^ 52 % 2 ^ 11 = 2047 ∧ b.toNat % 2 ^ 52 ≠ 0
  · have hb' : b = packedNaN Format.binary64 := by
      apply hb.eq_packedNaN
      · rw [← BitVec.toNat_inj, toNat_unpackExponent, hnan.1]
        rfl
      · rw [Ne, ← BitVec.toNat_inj, toNat_unpackMantissa]
        exact hnan.2
    rw [hb']
    rfl
  have hfits := fits_ofWord b.toNat
  have hsign := toNat_toBitVec_signOf (b.toNat / 2 ^ 63)
  apply BitVec.eq_of_toNat_eq
  rw [unpack_eq]
  rw [ofWord_eq] at hfits ⊢
  by_cases hinfinite : b.toNat / 2 ^ 52 % 2 ^ 11 = 2047
  · rw [if_pos hinfinite, if_pos (by tauto)]
    apply (toNat_packComponents _ (-1#11) 0#52).trans
    rw [hsign, show (-1#11).toNat = 2047 by decide, BitVec.toNat_zero]
    omega
  rw [if_neg hinfinite] at hfits ⊢
  by_cases hleast : b.toNat / 2 ^ 52 % 2 ^ 11 = 0
  · rw [if_pos hleast] at hfits ⊢
    by_cases hfraction : b.toNat % 2 ^ 52 = 0
    · rw [unpacked, dif_pos hfraction]
      apply (toNat_packComponents _ 0#11 0#52).trans
      rw [hsign, BitVec.toNat_zero, BitVec.toNat_zero]
      omega
    · rw [unpacked, dif_neg hfraction] at hfits ⊢
      rw [toNat_pack_finite _ hfits.1 hfits.2, hsign, if_neg (by dsimp only; omega)]
      dsimp only
      omega
  · rw [if_neg hleast, unpacked, dif_neg (by dsimp only; omega)] at hfits ⊢
    rw [toNat_pack_finite _ hfits.1 hfits.2, hsign, if_pos (by dsimp only; omega)]
    dsimp only
    omega

end Packing

section Floats

variable {x y : Float}

theorem unpack_toModel (x : Float) : x.toModel.unpack = unpacked (magnitude x) :=
  unpack_eq _

theorem toModel_pack_unpack (x : Float) : Float.Model.pack x.toModel.unpack = x.toModel := by
  have := pack_unpack x.toModel.valid
  cases h : x.toModel with
  | mk bits valid =>
    rw [h] at this
    simp only [Float.Model.pack, Float.Model.unpack]
    congr 1
    exact UInt64.toBitVec_inj.1 this

/-- A double is known from what its word stands for. -/
theorem ext_unpack (h : x.toModel.unpack = y.toModel.unpack) : x = y := by
  have : x.toModel = y.toModel := by
    rw [← toModel_pack_unpack x, h, toModel_pack_unpack]
  cases x
  cases y
  exact congrArg Float.ofModel this

theorem ext_magnitude (h : magnitude x = magnitude y) : x = y :=
  ext_unpack (by rw [unpack_toModel, unpack_toModel, h])

/-- What an operation packs is what its result unpacks to. -/
theorem unpack_ofModel_pack {u : UnpackedFloat} (hu : Fits u) :
    (Float.ofModel (Float.Model.pack u)).toModel.unpack = u :=
  unpack_pack hu

theorem fits_unpack (x : Float) : Fits x.toModel.unpack := by
  rw [unpack_toModel]
  exact fits_ofWord _

theorem isFinite_iff : x.isFinite = true ↔ ∃ b, magnitude x = .finite b := by
  have : x.isFinite = x.toModel.unpack.isFinite := rfl
  rw [this, unpack_toModel]
  cases magnitude x with
  | notANumber => simp [unpacked, UnpackedFloat.isFinite]
  | infinite negative => simp [unpacked, UnpackedFloat.isFinite]
  | finite b =>
    by_cases hb : b.mantissa = 0 <;> simp [unpacked, hb, UnpackedFloat.isFinite]

/-- The exact value of a finite double has the mantissa and exponent of its word. -/
theorem canonical_of_magnitude {b : Binary} (h : magnitude x = .finite b) :
    Canonical b.mantissa b.exponent ∧ b.exponent ≤ 971 :=
  canonical_of_ofWord h

end Floats

theorem unpack_zero : (0.0 : Float).toModel.unpack = .zero .positive := by
  rw [unpack_toModel, show magnitude 0.0 = .finite ⟨false, 0, -1074⟩ by decide +kernel]
  rfl

theorem unpack_minus_zero : (-0.0 : Float).toModel.unpack = .zero .negative := by
  rw [unpack_toModel, show magnitude (-0.0) = .finite ⟨true, 0, -1074⟩ by decide +kernel]
  rfl

end ClauseTriage.Double
