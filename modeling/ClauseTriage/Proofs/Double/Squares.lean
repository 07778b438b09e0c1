import ClauseTriage.Proofs.Double.Canonical

/-!
# Sums of squares

A square is never minus zero, so a sum of squares is the same from either zero.
-/
namespace ClauseTriage.Double

open Float.Model Float.Model.UnpackedFloat

/-- Without a minus sign. -/
def Unsigned : UnpackedFloat → Prop
  | .notANumber => True
  | .infinity s => s = .positive
  | .zero s => s = .positive
  | .finite s .. => s = .positive

theorem sign_mul_self (s : Sign) : s * s = .positive := by
  cases s <;> rfl

theorem unsigned_mul_self (u : UnpackedFloat) :
    Unsigned (UnpackedFloat.mul Format.binary64 u u) := by
  cases u with
  | notANumber => trivial
  | infinity s => exact sign_mul_self s
  | zero s => exact sign_mul_self s
  | finite s m e hm =>
    rw [UnpackedFloat.mul, sign_mul_self, roundWithAccuracy]
    dsimp only
    split <;> rfl

theorem toNat_packComponents_lt (e : BitVec 11) (m : BitVec 52) :
    (packComponents Format.binary64 .positive e m).toNat < 2 ^ 63 := by
  have hm := m.isLt
  have he := e.isLt
  rw [toNat_packComponents, show Sign.positive.toBitVec.toNat = 0 from rfl]
  omega

/-- The sign bit of a word without a minus sign is clear. -/
theorem toNat_pack_lt {u : UnpackedFloat} (h : Unsigned u) :
    (UnpackedFloat.pack Format.binary64 u).toNat < 2 ^ 63 := by
  cases u with
  | notANumber => exact toNat_packComponents_lt _ _
  | infinity s =>
    obtain rfl : s = .positive := h
    exact toNat_packComponents_lt _ _
  | zero s =>
    obtain rfl : s = .positive := h
    exact toNat_packComponents_lt _ _
  | finite s m e hm =>
    obtain rfl : s = .positive := h
    rw [UnpackedFloat.pack]
    dsimp only
    split
    · exact toNat_packComponents_lt _ _
    · split <;> exact toNat_packComponents_lt _ _

/-- The square of a double is not minus zero. -/
theorem unpack_square_ne (x : Float) : (x * x).toModel.unpack ≠ .zero .negative := by
  have hword : (x * x).toModel.unpack = UnpackedFloat.unpack Format.binary64
      (UnpackedFloat.pack Format.binary64
        (UnpackedFloat.mul Format.binary64 x.toModel.unpack x.toModel.unpack)) := rfl
  have hlt := toNat_pack_lt (unsigned_mul_self x.toModel.unpack)
  rw [hword, unpack_eq]
  generalize UnpackedFloat.pack Format.binary64 _ = word at hlt ⊢
  rw [ofWord_eq]
  have hsign : (word.toNat / 2 ^ 63 % 2 == 1) = false := by
    rw [Nat.div_eq_of_lt hlt]
    rfl
  rw [hsign]
  split
  · split <;> simp [unpacked]
  · split <;> (unfold unpacked; dsimp only; split <;> simp [signOf])

/-- Both zeros leave a number that is not minus zero unchanged. -/
theorem zero_add_of_unpack_ne {x : Float} (h : x.toModel.unpack ≠ .zero .negative) :
    (0.0 : Float) + x = -0.0 + x := by
  have hsum (z : Float) : z + x = .ofModel (.pack (UnpackedFloat.add Format.binary64
    z.toModel.unpack x.toModel.unpack)) := rfl
  rw [hsum, hsum, unpack_zero, unpack_minus_zero]
  congr 2
  generalize x.toModel.unpack = u at h
  cases u with
  | zero s =>
    cases s with
    | negative => exact absurd rfl h
    | positive => rfl
  | _ => rfl

theorem zero_add_square (x : Float) : (0.0 : Float) + x * x = -0.0 + x * x :=
  zero_add_of_unpack_ne (unpack_square_ne x)

end ClauseTriage.Double
