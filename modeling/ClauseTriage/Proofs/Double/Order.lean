import ClauseTriage.Proofs.Double.Rounding

/-!
# The order of doubles

Every finite double stands for a rational, and comparing two of them compares their rationals.
-/
namespace ClauseTriage.Double

open Float.Model Float.Model.UnpackedFloat

/-- A size with a sign. -/
def signed : Sign → ℚ → ℚ
  | .positive, q => q
  | .negative, q => -q

/-- The rational that an unpacked double stands for; zero where it is not finite. -/
def number : UnpackedFloat → ℚ
  | .finite s m e _ => signed s (m * 2 ^ e)
  | _ => 0

/-- The rational that a double stands for. -/
def value (x : Float) : ℚ := number x.toModel.unpack

theorem abs_signed (s : Sign) (q : ℚ) : |signed s q| = |q| := by
  cases s
  · exact abs_neg q
  · rfl

namespace Canonical

variable {m n : ℕ} {e f : ℤ}

theorem zero : Canonical 0 (-1074) := ⟨by decide, le_rfl, .inl rfl⟩

theorem lt_two_zpow (h : Canonical m e) : (m * 2 ^ e : ℚ) < 2 ^ (e + 53) := by
  rw [zpow_add₀ (by norm_num), mul_comm]
  have : (m : ℚ) < 2 ^ (53 : ℤ) := by exact_mod_cast h.below
  exact mul_lt_mul_of_pos_left this (two_zpow_pos e)

/-- A larger exponent is a larger number. -/
theorem lt_of_exponent_lt (hm : Canonical m e) (hn : Canonical n f) (h : e < f) :
    (m * 2 ^ e : ℚ) < n * 2 ^ f := by
  have hleast := hm.least
  have hfull : (2 : ℚ) ^ (52 : ℤ) ≤ n := by exact_mod_cast hn.full.resolve_left (by omega)
  calc (m * 2 ^ e : ℚ) < 2 ^ (e + 53) := hm.lt_two_zpow
    _ ≤ 2 ^ (52 + f) := zpow_le_zpow_right₀ (by norm_num) (by omega)
    _ = 2 ^ (52 : ℤ) * 2 ^ f := zpow_add₀ (by norm_num) _ _
    _ ≤ n * 2 ^ f := by gcongr

/-- Where exponents come first and mantissas second, comparing both compares sizes. -/
theorem compare_then {α : Type} [LinearOrder α] {size : ℕ → ℤ → α}
    (hexponent : ∀ {m n e f}, Canonical m e → Canonical n f → e < f → size m e < size n f)
    (hmantissa : ∀ {m n} e, m < n → size m e < size n e) (hm : Canonical m e) (hn : Canonical n f) :
    (compare e f).then (compare m n) = compare (size m e) (size n f) := by
  rcases lt_trichotomy e f with h | rfl | h
  · rw [compare_lt_iff_lt.2 h, compare_lt_iff_lt.2 (hexponent hm hn h)]
    rfl
  · rw [compare_eq_iff_eq.2 rfl, Ordering.eq_then]
    rcases lt_trichotomy m n with h | rfl | h
    · rw [compare_lt_iff_lt.2 h, compare_lt_iff_lt.2 (hmantissa e h)]
    · rw [compare_eq_iff_eq.2 rfl, compare_eq_iff_eq.2 rfl]
    · rw [compare_gt_iff_gt.2 h, compare_gt_iff_gt.2 (hmantissa e h)]
  · rw [compare_gt_iff_gt.2 h, compare_gt_iff_gt.2 (hexponent hn hm h)]
    rfl

/-- Numbers are compared by exponent first and mantissa second. -/
theorem compare_eq (hm : Canonical m e) (hn : Canonical n f) :
    (compare e f).then (compare m n) = compare (m * 2 ^ e : ℚ) (n * 2 ^ f) := by
  have hmantissa {m n : ℕ} (e : ℤ) (h : m < n) : (m * 2 ^ e : ℚ) < n * 2 ^ e := by
    have hpos := two_zpow_pos e
    gcongr
  exact compare_then lt_of_exponent_lt hmantissa hm hn

end Canonical

section Compare

variable {α : Type} [LinearOrder α] {p q : α}

theorem some_compare_of_lt (h : p < q) : some Ordering.lt = some (compare p q) :=
  congrArg some (compare_lt_iff_lt.2 h).symm

theorem some_compare_of_gt (h : q < p) : some Ordering.gt = some (compare p q) :=
  congrArg some (compare_gt_iff_gt.2 h).symm

theorem some_compare_self (p : α) : some Ordering.eq = some (compare p p) :=
  congrArg some (compare_eq_iff_eq.2 rfl).symm

theorem compare_neg [AddCommGroup α] [IsOrderedAddMonoid α] (p q : α) :
    compare (-p) (-q) = (compare p q).swap := by
  rcases lt_trichotomy p q with h | rfl | h
  · rw [compare_lt_iff_lt.2 h, compare_gt_iff_gt.2 (neg_lt_neg h)]
    rfl
  · rw [compare_eq_iff_eq.2 rfl, compare_eq_iff_eq.2 rfl]
    rfl
  · rw [compare_gt_iff_gt.2 h, compare_lt_iff_lt.2 (neg_lt_neg h)]
    rfl

/-- A size with its sign for every finite double. -/
def sized [AddCommGroup α] (size : ℕ → ℤ → α) : UnpackedFloat → α
  | .finite .positive m e _ => size m e
  | .finite .negative m e _ => -size m e
  | _ => 0

/-- Comparing finite doubles compares their sizes, of whatever kind: all that matters is that sizes
are above zero and in the order of exponents first and mantissas second. -/
theorem compare_sized [AddCommGroup α] [IsOrderedAddMonoid α] {size : ℕ → ℤ → α}
    (hpos : ∀ {m e}, Canonical m e → 0 < m → 0 < size m e)
    (hcompare : ∀ {m e n f}, Canonical m e → Canonical n f →
      (compare e f).then (compare m n) = compare (size m e) (size n f))
    {u v : UnpackedFloat} (hu : Fits u) (hv : Fits v) (hu' : u.isFinite = true)
    (hv' : v.isFinite = true) : u.compare v = some (compare (sized size u) (sized size v)) := by
  cases u with
  | notANumber => cases hu'
  | infinity s => cases hu'
  | zero s =>
    cases v with
    | notANumber => cases hv'
    | infinity s' => cases hv'
    | zero s' => exact some_compare_self 0
    | finite s' n f hn =>
      have hpos := hpos hv.1 hn
      cases s' with
      | negative => exact some_compare_of_gt (neg_neg_of_pos hpos)
      | positive => exact some_compare_of_lt hpos
  | finite s m e hm =>
    have hupos := hpos hu.1 hm
    cases v with
    | notANumber => cases hv'
    | infinity s' => cases hv'
    | zero s' =>
      cases s with
      | negative => exact some_compare_of_lt (neg_neg_of_pos hupos)
      | positive => exact some_compare_of_gt hupos
    | finite s' n f hn =>
      have hvpos := hpos hv.1 hn
      have hsizes := hcompare hu.1 hv.1
      cases s <;> cases s'
      · exact congrArg some ((congrArg Ordering.swap hsizes).trans (compare_neg _ _).symm)
      · exact some_compare_of_lt ((neg_neg_of_pos hupos).trans hvpos)
      · exact some_compare_of_gt ((neg_neg_of_pos hvpos).trans hupos)
      · exact congrArg some hsizes

/-- Places that order the finite doubles, with the infinities at both ends, order all numbers. -/
theorem compare_of_isFinite {place : UnpackedFloat → α}
    (hfinite : ∀ {u v}, Fits u → Fits v → u.isFinite = true → v.isFinite = true →
      u.compare v = some (compare (place u) (place v)))
    (hends : ∀ {u}, Fits u → u.isFinite = true →
      place (.infinity .negative) < place u ∧ place u < place (.infinity .positive))
    {u v : UnpackedFloat} (hu : Fits u) (hv : Fits v) (hu' : u.isNaN = false)
    (hv' : v.isNaN = false) : u.compare v = some (compare (place u) (place v)) := by
  have hinfinities : place (.infinity .negative) < place (.infinity .positive) := by
    obtain ⟨hlow, hhigh⟩ := hends (u := .zero .positive) trivial rfl
    exact hlow.trans hhigh
  cases u with
  | notANumber => cases hu'
  | infinity s =>
    cases v with
    | notANumber => cases hv'
    | infinity s' =>
      cases s <;> cases s'
      · exact some_compare_self _
      · exact some_compare_of_lt hinfinities
      · exact some_compare_of_gt hinfinities
      · exact some_compare_self _
    | _ =>
      obtain ⟨hlow, hhigh⟩ := hends hv rfl
      cases s
      · exact some_compare_of_lt hlow
      · exact some_compare_of_gt hhigh
  | _ =>
    cases v with
    | notANumber => cases hv'
    | infinity s' =>
      obtain ⟨hlow, hhigh⟩ := hends hu rfl
      cases s'
      · exact some_compare_of_gt hlow
      · exact some_compare_of_lt hhigh
    | _ => exact hfinite hu hv rfl rfl

/-- What is not a number compares with nothing. -/
theorem compare_eq_some_iff {u v : UnpackedFloat} {o : Ordering}
    (h : u.isNaN = false → v.isNaN = false → u.compare v = some (compare p q)) :
    u.compare v = some o ↔ u.isNaN = false ∧ v.isNaN = false ∧ compare p q = o := by
  cases u with
  | notANumber => simp [UnpackedFloat.compare, UnpackedFloat.isNaN]
  | _ =>
    cases v with
    | notANumber => simp [UnpackedFloat.compare, UnpackedFloat.isNaN]
    | _ => simp [h rfl rfl, UnpackedFloat.isNaN]

end Compare

theorem size_pos {m : ℕ} (e : ℤ) (hm : 0 < m) : (0 : ℚ) < m * 2 ^ e :=
  mul_pos (by exact_mod_cast hm) (two_zpow_pos e)

theorem number_eq_sized (u : UnpackedFloat) : number u = sized (fun m e => (m * 2 ^ e : ℚ)) u := by
  cases u with
  | finite s m e hm => cases s <;> rfl
  | _ => rfl

/-- Comparing finite doubles compares their rationals. -/
theorem compare_number {u v : UnpackedFloat} (hu : Fits u) (hv : Fits v)
    (hu' : u.isFinite = true) (hv' : v.isFinite = true) :
    u.compare v = some (compare (number u) (number v)) := by
  rw [number_eq_sized, number_eq_sized]
  exact compare_sized (fun _ hm => size_pos _ hm) Canonical.compare_eq hu hv hu' hv'

section Floats

variable {x y : Float}

theorem value_of_magnitude {b : Decimal.Binary} (h : Decimal.magnitude x = .finite b) :
    value x = signed (signOf b.negative) (b.mantissa * 2 ^ b.exponent) := by
  rw [value, unpack_toModel, h, unpacked]
  split
  · rename_i hzero
    rw [hzero]
    cases b.negative <;> simp [number, signed, signOf]
  · rfl

theorem isFinite_unpack (x : Float) : x.isFinite = x.toModel.unpack.isFinite := rfl

theorem compare_unpack (hx : x.isFinite = true) (hy : y.isFinite = true) :
    x.toModel.unpack.compare y.toModel.unpack = some (compare (value x) (value y)) :=
  compare_number (fits_unpack x) (fits_unpack y) hx hy

theorem lt_iff (hx : x.isFinite = true) (hy : y.isFinite = true) :
    x < y ↔ value x < value y := by
  have hcompare : x < y ↔ x.toModel.unpack.lt y.toModel.unpack = true := decide_eq_true_iff
  rw [hcompare, UnpackedFloat.lt, compare_unpack hx hy, beq_iff_eq, Option.some_inj,
    compare_lt_iff_lt]

theorem le_iff (hx : x.isFinite = true) (hy : y.isFinite = true) :
    x ≤ y ↔ value x ≤ value y := by
  have hcompare : x ≤ y ↔ x.toModel.unpack.le y.toModel.unpack = true := decide_eq_true_iff
  rw [hcompare, UnpackedFloat.le, compare_unpack hx hy, Option.any_some, Ordering.isLE_iff_ne_gt]
  exact compare_le_iff_le

theorem beq_iff (hx : x.isFinite = true) (hy : y.isFinite = true) :
    (x == y) = true ↔ value x = value y := by
  have hcompare : (x == y) = x.toModel.unpack.beq y.toModel.unpack := rfl
  rw [hcompare, UnpackedFloat.beq, compare_unpack hx hy, beq_iff_eq, Option.some_inj,
    compare_eq_iff_eq]

end Floats

end ClauseTriage.Double
