import ClauseTriage.Proofs.Double.Halves
import ClauseTriage.Proofs.Double.Shares
import ClauseTriage.Proofs.Double.Squares
import ClauseTriage.Proofs.Places

/-!
# Places of doubles

The place of a finite double is the rational it stands for, and both infinities are at the ends. A
threshold between two finite values depends on their places alone: no sign of a zero shows in it.
-/
namespace ClauseTriage.Double

open Float.Model Float.Model.UnpackedFloat

/-- The place of an unpacked double; what is not a number has the place of zero. -/
def placeOf : UnpackedFloat → WithBot (WithTop ℚ)
  | .infinity .negative => ⊥
  | .infinity .positive => (⊤ : WithTop ℚ)
  | u => (number u : WithTop ℚ)

theorem compare_coe (p q : ℚ) :
    compare ((p : WithTop ℚ) : WithBot (WithTop ℚ)) (q : WithTop ℚ) = compare p q := by
  rcases lt_trichotomy p q with h | rfl | h
  · rw [compare_lt_iff_lt.2 h, compare_lt_iff_lt, WithBot.coe_lt_coe, WithTop.coe_lt_coe]
    exact h
  · rw [compare_eq_iff_eq.2 rfl, compare_eq_iff_eq.2 rfl]
  · rw [compare_gt_iff_gt.2 h, compare_gt_iff_gt]
    exact WithBot.coe_lt_coe.2 (WithTop.coe_lt_coe.2 h)

theorem placeOf_of_isFinite {u : UnpackedFloat} (h : u.isFinite = true) :
    placeOf u = (number u : WithTop ℚ) := by
  cases u with
  | infinity s => cases h
  | _ => rfl

/-- Comparing numbers compares their places. -/
theorem compare_placeOf {u v : UnpackedFloat} (hu : Fits u) (hv : Fits v)
    (hu' : u.isNaN = false) (hv' : v.isNaN = false) :
    u.compare v = some (compare (placeOf u) (placeOf v)) := by
  refine compare_of_isFinite (fun hu hv hu' hv' => ?_) (fun _ hu' => ?_) hu hv hu' hv'
  · rw [placeOf_of_isFinite hu', placeOf_of_isFinite hv', compare_coe]
    exact compare_number hu hv hu' hv'
  · rw [placeOf_of_isFinite hu']
    exact ⟨WithBot.bot_lt_coe _, WithBot.coe_lt_coe.2 (WithTop.coe_lt_top _)⟩

section Order

variable {x y : Float}

theorem compare_unpack_eq_some {o : Ordering} :
    x.toModel.unpack.compare y.toModel.unpack = some o ↔ x.isNaN = false ∧ y.isNaN = false ∧
      compare (placeOf x.toModel.unpack) (placeOf y.toModel.unpack) = o :=
  compare_eq_some_iff (compare_placeOf (fits_unpack x) (fits_unpack y))

instance : Placed Float where
  place x := placeOf x.toModel.unpack
  le_iff {x y} := by
    have hle : Scalar.le x y = true ↔ x.toModel.unpack.le y.toModel.unpack = true :=
      decide_eq_true_iff.trans le_unpack
    simp only [hle, UnpackedFloat.le, Option.any_eq_true, compare_unpack_eq_some,
      Ordering.isLE_iff_ne_gt]
    constructor
    · rintro ⟨o, ⟨hx, hy, rfl⟩, hle⟩
      exact ⟨hx, hy, compare_le_iff_le.1 hle⟩
    · rintro ⟨hx, hy, hle⟩
      exact ⟨_, ⟨hx, hy, rfl⟩, compare_le_iff_le.2 hle⟩
  lt_iff {x y} := by
    have hlt : Scalar.lt x y = true ↔ x.toModel.unpack.lt y.toModel.unpack = true :=
      decide_eq_true_iff.trans decide_eq_true_iff
    rw [hlt, UnpackedFloat.lt, beq_iff_eq, compare_unpack_eq_some, compare_lt_iff_lt]
    rfl
  isFinite_iff {x} := by
    have hfinite : Scalar.isFinite x = x.toModel.unpack.isFinite := rfl
    have hnan : Scalar.isNaN x = x.toModel.unpack.isNaN := rfl
    rw [hfinite, hnan]
    generalize x.toModel.unpack = u
    cases u with
    | infinity s => cases s <;> simp [placeOf, UnpackedFloat.isFinite]
    | _ => simp [placeOf, UnpackedFloat.isFinite, UnpackedFloat.isNaN]

end Order

section Zeros

variable {x y : Float}

theorem Canonical.eq_of_size_eq {m n : ℕ} {e f : ℤ} (hm : Canonical m e) (hn : Canonical n f)
    (h : (m * 2 ^ e : ℚ) = n * 2 ^ f) : m = n ∧ e = f := by
  have hcompare := hm.compare_eq hn
  rw [compare_eq_iff_eq.2 h, Ordering.then_eq_eq, compare_eq_iff_eq, compare_eq_iff_eq] at hcompare
  exact hcompare.symm

/-- Finite doubles of one number are one double, or both are zeros. -/
theorem eq_or_zeros_of_number {u v : UnpackedFloat} (hu : Fits u) (hv : Fits v)
    (hu' : u.isFinite = true) (hv' : v.isFinite = true) (h : number u = number v) :
    u = v ∨ (∃ s, u = .zero s) ∧ ∃ s, v = .zero s := by
  have hne (s : Sign) {m : ℕ} (e : ℤ) (hm : 0 < m) : signed s (m * 2 ^ e) ≠ 0 := by
    have := size_pos e hm
    cases s <;> simp only [signed] <;> linarith
  cases u with
  | notANumber => cases hu'
  | infinity s => cases hu'
  | zero s =>
    cases v with
    | notANumber => cases hv'
    | infinity s' => cases hv'
    | zero s' => exact .inr ⟨⟨s, rfl⟩, s', rfl⟩
    | finite s' n f hn => exact absurd h.symm (hne s' f hn)
  | finite s m e hm =>
    cases v with
    | notANumber => cases hv'
    | infinity s' => cases hv'
    | zero s' => exact absurd h (hne s e hm)
    | finite s' n f hn =>
      have hpos := size_pos e hm
      have hpos' := size_pos f hn
      left
      cases s <;> cases s' <;> simp only [number, signed] at h
      · obtain ⟨rfl, rfl⟩ := hu.1.eq_of_size_eq hv.1 (neg_injective h)
        rfl
      · linarith
      · linarith
      · obtain ⟨rfl, rfl⟩ := hu.1.eq_of_size_eq hv.1 h
        rfl

theorem eq_or_zeros (hx : x.isFinite = true) (h : Scalar.eq x y = true) :
    x = y ∨ (∃ s, x.toModel.unpack = .zero s) ∧ ∃ s, y.toModel.unpack = .zero s := by
  have hy : y.isFinite = true := (Placed.isFinite_congr h).symm.trans hx
  exact (eq_or_zeros_of_number (fits_unpack x) (fits_unpack y) hx hy (value_of_eq hy h)).imp_left
    ext_unpack

/-- A zero is one of two. -/
theorem eq_zero_of_unpack {s : Sign} (h : x.toModel.unpack = .zero s) : x = 0.0 ∨ x = -0.0 := by
  cases s with
  | negative => exact .inr (ext_unpack (h.trans unpack_minus_zero.symm))
  | positive => exact .inl (ext_unpack (h.trans unpack_zero.symm))

/-- The nearest integer to half of a number is not the number or above it. -/
theorem Nearest.lt_of_half {q : ℚ} {n : ℕ} (h : Nearest (q / 2) n) (hq : 0 < q) : (n : ℚ) < q := by
  obtain ⟨hnear, heven⟩ := h
  by_contra hge
  rw [not_lt] at hge
  have hupper := (abs_le.1 hnear).1
  have hone : n = 1 := by
    have hpos : (0 : ℚ) < n := hq.trans_le hge
    have hle : (n : ℚ) ≤ 1 := by linarith
    have : 0 < n := by exact_mod_cast hpos
    have : n ≤ 1 := by exact_mod_cast hle
    omega
  subst hone
  have htie : |q / 2 - (1 : ℕ)| = 1 / 2 := by
    rw [abs_of_nonpos (by push_cast at *; linarith)]
    push_cast at *
    linarith
  exact absurd (heven htie) (by decide)

theorem unpack_two :
    (Float.ofNat 2).toModel.unpack = .finite .positive (2 ^ 52) (-51) (by decide) := by
  rw [unpack_toModel, show Decimal.magnitude (Float.ofNat 2) = .finite ⟨false, 2 ^ 52, -51⟩ by
    decide +kernel]
  rfl

theorem carry_ne_minus_zero (n : ℕ) (t : ℤ) : carry .positive n t ≠ .zero .negative := by
  unfold carry
  split
  · simp
  · split <;> simp

/-- Half of a positive double is below it, and where it is zero it has no minus. -/
theorem half_lt (hpos : 0 < value x) :
    value (x / Float.ofNat 2) < value x ∧ (x / Float.ofNat 2).toModel.unpack ≠ .zero .negative := by
  obtain ⟨m, e, hm, hunpack⟩ := unpack_of_value_pos hpos
  have hsize : value x = m * 2 ^ e := by rw [value, hunpack, number, signed]
  have htwo : ((2 ^ 52 : ℕ) * 2 ^ (-51 : ℤ) : ℚ) = 2 := by norm_num
  have hrounded : RoundedFrom (.positive / .positive) (m * 2 ^ e / ((2 ^ 52 : ℕ) * 2 ^ (-51 : ℤ)))
      (UnpackedFloat.div Format.binary64 (.finite .positive m e hm)
        (.finite .positive (2 ^ 52) (-51) (by decide))) := roundedFrom_div hm _ .positive .positive
  obtain ⟨n, t, hq, hn, hhalf⟩ := hrounded
  rw [htwo] at hq hn
  have hlarge : (m * 2 ^ e / 2 : ℚ) ≤ largest := by
    rw [← hsize]
    linarith [(abs_le.1 (abs_value_le x)).2]
  have hcarried : (x / Float.ofNat 2).toModel.unpack = carry .positive n t := by
    apply unpack_div (fits_carry .positive hq hn hlarge)
    rw [hunpack, unpack_two]
    exact hhalf
  have hstep := two_zpow_pos t
  have hbelow : (n : ℚ) < m * 2 ^ e / 2 ^ t := by
    apply Nearest.lt_of_half
    · rwa [div_right_comm]
    · exact div_pos (size_pos e hm) hstep
  rw [lt_div_iff₀ hstep] at hbelow
  refine ⟨?_, hcarried ▸ carry_ne_minus_zero n t⟩
  rw [hsize, value, hcarried, number_carry _ (hq.nearest_le hn)]
  exact hbelow

theorem half_zeros : (0.0 : Float) / Float.ofNat 2 = 0.0 ∧ (-0.0 : Float) / Float.ofNat 2 = -0.0 := by
  decide +kernel

theorem midpoint_eq (x y : Float) : Cart.midpoint x y =
    if Scalar.le y (x / Float.ofNat 2 + y / Float.ofNat 2) then x
    else x / Float.ofNat 2 + y / Float.ofNat 2 := rfl

/-- Below a positive value both zeros leave the same threshold. -/
theorem midpoint_zeros_left (hy : y.isFinite = true) (h : 0 < value y) :
    Cart.midpoint 0.0 y = Cart.midpoint (-0.0) y := by
  obtain ⟨hbelow, hsign⟩ := half_lt h
  obtain ⟨hfinite, hrounded⟩ := add_halves_rounded zero_finite hy
  have hmiddle : Scalar.le y (0.0 / Float.ofNat 2 + y / Float.ofNat 2) = false := by
    apply decide_eq_false
    rw [le_iff hy hfinite, not_le]
    rw [half_zeros.1, value_zero, zero_add] at hrounded
    rw [half_zeros.1]
    exact ((hrounded _ ⟨_, (half_rounded hy).1, rfl⟩).1 le_rfl).trans_lt hbelow
  rw [midpoint_eq, midpoint_eq, hmiddle]
  rw [half_zeros.1] at hmiddle ⊢
  rw [half_zeros.2, ← zero_add_of_unpack_ne hsign, hmiddle, if_neg Bool.false_ne_true,
    if_neg Bool.false_ne_true]

/-- Above any value both zeros leave the same threshold. -/
theorem midpoint_zeros_right (hx : x.isFinite = true) :
    Cart.midpoint x 0.0 = Cart.midpoint x (-0.0) := by
  have hfinite := (half_rounded hx).1
  rw [midpoint_eq, midpoint_eq, half_zeros.1, half_zeros.2]
  generalize x / Float.ofNat 2 = h at hfinite ⊢
  cases hunpack : h.toModel.unpack with
  | notANumber => simp [isFinite_unpack, hunpack, UnpackedFloat.isFinite] at hfinite
  | infinity s => simp [isFinite_unpack, hunpack, UnpackedFloat.isFinite] at hfinite
  | zero s =>
    -- the middle is a zero and so not below the other one
    have hmiddle : Scalar.le 0.0 (h + 0.0) = true ∧ Scalar.le (-0.0) (h + -0.0) = true := by
      rcases eq_zero_of_unpack hunpack with rfl | rfl <;> decide +kernel
    rw [if_pos hmiddle.1, if_pos hmiddle.2]
  | finite s m e hm =>
    have hminus : h + -0.0 = h := by
      apply ext_unpack
      rw [unpack_add (hunpack ▸ fits_unpack h : Fits (.finite s m e hm)) ?_, hunpack]
      rw [unpack_minus_zero, hunpack]
      rfl
    have hzeros : Scalar.eq (0.0 : Float) (-0.0) = true := by decide +kernel
    rw [(add_zeros hunpack).2.2, hminus, Placed.le_congr_left hzeros]

/-- A threshold between two finite values depends on their places alone. -/
theorem midpoint_congr {x' y' : Float} (hx : x.isFinite = true) (hy : y.isFinite = true)
    (h : x < y) (hxx : Scalar.eq x x' = true) (hyy : Scalar.eq y y' = true) :
    Cart.midpoint x y = Cart.midpoint x' y' := by
  rw [lt_iff hx hy] at h
  have hleft {z : Float} (hz : ∃ s, z.toModel.unpack = .zero s) (hpos : 0 < value y) :
      Cart.midpoint z y = Cart.midpoint 0.0 y := by
    obtain ⟨s, hz⟩ := hz
    rcases eq_zero_of_unpack hz with rfl | rfl
    · rfl
    · exact (midpoint_zeros_left hy hpos).symm
  have hright {z : Float} (hz : ∃ s, z.toModel.unpack = .zero s) :
      Cart.midpoint x z = Cart.midpoint x 0.0 := by
    obtain ⟨s, hz⟩ := hz
    rcases eq_zero_of_unpack hz with rfl | rfl
    · rfl
    · exact (midpoint_zeros_right hx).symm
  have hvalue {z : Float} (hz : ∃ s, z.toModel.unpack = .zero s) : value z = 0 := by
    obtain ⟨s, hz⟩ := hz
    rw [value, hz]
    rfl
  rcases eq_or_zeros hx hxx with rfl | ⟨hzero, hzero'⟩
  · rcases eq_or_zeros hy hyy with rfl | ⟨hzero, hzero'⟩
    · rfl
    · rw [hright hzero, hright hzero']
  · -- above a zero there is no other one
    rw [hvalue hzero] at h
    rcases eq_or_zeros hy hyy with rfl | ⟨hyzero, -⟩
    · rw [hleft hzero h, hleft hzero' h]
    · exact absurd (hvalue hyzero) h.ne'

end Zeros

end ClauseTriage.Double
