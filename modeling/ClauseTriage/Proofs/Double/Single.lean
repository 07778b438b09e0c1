import ClauseTriage.Proofs.Double.Nearest
import ClauseTriage.Proofs.Double.Places

/-!
# Numbers of binary32

The host program keeps its numbers with 24 binary places. A size is rounded to the nearest of them,
the even one of two, and past the largest to infinity. Rounding passes no number of binary32, and no
other one is nearer.
-/
namespace ClauseTriage.Single

open Float.Model (UnpackedFloat)
open Float.Model.UnpackedFloat (Sign)
open Double

/-- The natural number nearest to a size; of two that are, the even one. -/
def toEven (x : ℚ) : ℕ := Decimal.roundDiv x.num.toNat x.den

/-- The exponent of the last of 24 places, never below the least one. -/
def lastPlace (x : ℚ) : ℤ := max (Int.log 2 x - 23) (-149)

/-- The nearest size, were the exponents without an upper bound. -/
def nearestSize (x : ℚ) : ℚ := toEven (x / 2 ^ lastPlace x) * 2 ^ lastPlace x

/-- The place of a size with a sign, rounded to binary32. -/
def round (s : Sign) (x : ℚ) : WithBot (WithTop ℚ) :=
  if nearestSize x < 2 ^ 128 then (signed s (nearestSize x) : WithTop ℚ) else placeOf (.infinity s)

/-- Binary32 has the size, were its exponents without an upper bound. -/
def IsSize (x : ℚ) : Prop := ∃ (m : ℕ) (e : ℤ), m < 2 ^ 24 ∧ -149 ≤ e ∧ x = m * 2 ^ e

/-- A double that binary32 has too: a size below `2 ^ 128` with a sign, or what is not finite. -/
def Exact (v : Float) : Prop :=
  v.isFinite = true → ∃ s x, IsSize x ∧ x < 2 ^ 128 ∧ value v = signed s x

section Sizes

variable {x a : ℚ}

theorem IsSize.nonneg (h : IsSize a) : 0 ≤ a := by
  obtain ⟨m, e, -, -, rfl⟩ := h
  exact mul_nonneg (Nat.cast_nonneg m) (two_zpow_pos e).le

theorem nearest_div (hx : 0 ≤ x) : Nearest (x / 2 ^ lastPlace x) (toEven (x / 2 ^ lastPlace x)) :=
  nearest_num_den (div_nonneg hx (two_zpow_pos _).le)

theorem nearestSize_nonneg (x : ℚ) : 0 ≤ nearestSize x :=
  mul_nonneg (Nat.cast_nonneg _) (two_zpow_pos _).le

theorem nearestSize_zero : nearestSize 0 = 0 := by
  have hzero : toEven 0 = 0 := rfl
  rw [nearestSize, zero_div, hzero, Nat.cast_zero, zero_mul]

/-- A size that binary32 has too is a double with all its places. -/
theorem IsSize.full {m : ℕ} {e : ℤ} (ha : IsSize (m * 2 ^ e)) (hc : Canonical m e) (hm : 0 < m) :
    2 ^ 52 ≤ m := by
  refine hc.full.resolve_left fun hleast => ?_
  obtain ⟨k, f, -, hf, heq⟩ := ha
  have hk : (1 : ℚ) ≤ k := by
    have : (0 : ℚ) < k * 2 ^ f := heq ▸ size_pos e hm
    have : k ≠ 0 := by
      rintro rfl
      simp at this
    exact_mod_cast Nat.pos_of_ne_zero this
  have : (m * 2 ^ e : ℚ) < m * 2 ^ e := calc
    (m * 2 ^ e : ℚ) < 2 ^ (e + 53) := hc.lt_two_zpow
    _ ≤ 2 ^ f := zpow_le_zpow_right₀ (by norm_num) (by omega)
    _ ≤ k * 2 ^ f := le_mul_of_one_le_left (two_zpow_pos f).le hk
    _ = m * 2 ^ e := heq.symm
  exact this.false

/-- Above the least exponent a number reaches the first of its 24 places. -/
theorem two_zpow_le (hx : 0 < x) (h : lastPlace x ≠ -149) : (2 : ℚ) ^ (lastPlace x + 23) ≤ x := by
  have hlog : lastPlace x + 23 = Int.log 2 x := by
    unfold lastPlace at h ⊢
    omega
  rw [hlog]
  exact_mod_cast Int.zpow_log_le_self (by norm_num) hx

theorem lt_two_zpow (x : ℚ) : x < 2 ^ (lastPlace x + 24) := by
  have hlog : Int.log 2 x + 1 ≤ lastPlace x + 24 := by
    unfold lastPlace
    omega
  calc x < 2 ^ (Int.log 2 x + 1) := by exact_mod_cast Int.lt_zpow_succ_log_self (by norm_num) x
    _ ≤ 2 ^ (lastPlace x + 24) := zpow_le_zpow_right₀ (by norm_num) hlog

theorem mantissa_lt {m : ℕ} (hm : m < 2 ^ 24) (e : ℤ) : (m * 2 ^ e : ℚ) < 2 ^ (e + 24) := by
  rw [zpow_add₀ (by norm_num), mul_comm]
  have : (m : ℚ) < 2 ^ (24 : ℤ) := by exact_mod_cast hm
  exact mul_lt_mul_of_pos_left this (two_zpow_pos e)

/-- A size that is not below a number is a multiple of the last place of the number. -/
theorem IsSize.multiple_of_le (ha : IsSize a) (hx : 0 < x) (h : x ≤ a) :
    ∃ k : ℕ, a = k * 2 ^ lastPlace x := by
  obtain ⟨m, e, hm, he, rfl⟩ := ha
  refine ⟨_, size_eq_mul (t := lastPlace x) ?_⟩
  by_contra hlt
  have := (two_zpow_le hx (by omega)).trans_lt (h.trans_lt (mantissa_lt hm e))
  have := (zpow_lt_zpow_iff_right₀ (by norm_num : (1 : ℚ) < 2)).1 this
  omega

/-- Between a size and a number above it there is a multiple of the last place of the number. -/
theorem IsSize.multiple_between (ha : IsSize a) (hx : 0 < x) (h : a ≤ x) :
    ∃ k : ℕ, a ≤ k * 2 ^ lastPlace x ∧ k * 2 ^ lastPlace x ≤ x := by
  obtain ⟨m, e, hm, he, rfl⟩ := ha
  rcases le_or_gt (lastPlace x) e with hle | hlt
  · have hmultiple := size_eq_mul (m := m) hle
    exact ⟨_, hmultiple.le, hmultiple ▸ h⟩
  · -- the number is in a higher binade, and this begins with a multiple
    have hfull : ((2 ^ 23 : ℕ) : ℚ) * 2 ^ lastPlace x = 2 ^ (lastPlace x + 23) := by
      rw [Nat.cast_pow, Nat.cast_ofNat, ← zpow_natCast, ← zpow_add₀ (by norm_num), add_comm]
      rfl
    refine ⟨2 ^ 23, ?_, ?_⟩
    · rw [hfull]
      exact (mantissa_lt hm e).le.trans (zpow_le_zpow_right₀ (by norm_num) (by omega))
    · rw [hfull]
      exact two_zpow_le hx (by omega)

/-- A number that is not above a size is not rounded to above it. -/
theorem IsSize.nearestSize_le (ha : IsSize a) (hx : 0 ≤ x) (h : x ≤ a) : nearestSize x ≤ a := by
  rcases hx.eq_or_lt with rfl | hpos
  · exact nearestSize_zero.trans_le ha.nonneg
  obtain ⟨k, rfl⟩ := ha.multiple_of_le hpos h
  have htwo := two_zpow_pos (lastPlace x)
  have := (nearest_div hx).le_of_le ((div_le_iff₀ htwo).2 h)
  exact mul_le_mul_of_nonneg_right (by exact_mod_cast this) htwo.le

/-- A number that is not below a size is not rounded to below it. -/
theorem IsSize.le_nearestSize (ha : IsSize a) (hx : 0 ≤ x) (h : a ≤ x) : a ≤ nearestSize x := by
  rcases hx.eq_or_lt with rfl | hpos
  · exact h.trans_eq nearestSize_zero.symm
  obtain ⟨k, hak, hkx⟩ := ha.multiple_between hpos h
  have htwo := two_zpow_pos (lastPlace x)
  have := (nearest_div hx).le_of_ge ((le_div_iff₀ htwo).2 hkx)
  exact hak.trans (mul_le_mul_of_nonneg_right (by exact_mod_cast this) htwo.le)

/-- What is near to a size, on the scale of 53 places, is rounded to it. -/
theorem IsSize.nearestSize_eq (ha : IsSize a) (hpos : 0 < a) (h : |x - a| ≤ a / 2 ^ 53) :
    nearestSize x = a := by
  obtain ⟨hlow, hhigh⟩ := abs_le.1 h
  have hx : 0 < x := by linarith
  have htwo := two_zpow_pos (lastPlace x)
  -- a step of 24 places is wider than all that is lost on 53 places
  have hnear : |x - a| < 2 ^ lastPlace x / 2 := by
    have hbelow := lt_two_zpow x
    rw [zpow_add₀ (by norm_num)] at hbelow
    norm_num at hbelow
    calc |x - a| ≤ a / 2 ^ 53 := h
      _ ≤ 2 * x / 2 ^ 53 := by linarith
      _ < 2 ^ lastPlace x / 2 := by linarith
  obtain ⟨k, rfl⟩ : ∃ k : ℕ, a = k * 2 ^ lastPlace x := by
    obtain ⟨m, e, hm, he, rfl⟩ := ha
    refine ⟨_, size_eq_mul (t := lastPlace x) ?_⟩
    by_contra hlt
    -- the number is at least in the binade above the size, so the gap is a step of the size
    have hstep : ((m + 1 : ℕ) : ℚ) * 2 ^ e ≤ x := calc
      ((m + 1 : ℕ) : ℚ) * 2 ^ e ≤ (2 ^ 24 : ℕ) * 2 ^ e := by
        gcongr
        exact hm
      _ = 2 ^ (24 + e) := by rw [zpow_add₀ (by norm_num)]; norm_num
      _ ≤ 2 ^ (lastPlace x + 23) := zpow_le_zpow_right₀ (by norm_num) (by omega)
      _ ≤ x := two_zpow_le hx (by omega)
    have hbelow : (m * 2 ^ e : ℚ) < 2 ^ 24 * 2 ^ e := by
      have : (m : ℚ) < 2 ^ 24 := by exact_mod_cast hm
      have := two_zpow_pos e
      gcongr
    push_cast at hstep
    linarith
  have hk : Nearest (x / 2 ^ lastPlace x) k := by
    have hdistance : |x / 2 ^ lastPlace x - k| < 1 / 2 := by
      rw [abs_sub_mul_step htwo] at hnear
      exact lt_of_mul_lt_mul_right (hnear.trans_eq (by ring)) htwo.le
    exact ⟨hdistance.le, fun heq => absurd heq hdistance.ne⟩
  rw [nearestSize, (nearest_div hx.le).unique hk]

/-- What a number is rounded to is a size of binary32. -/
theorem isSize_nearestSize (hx : 0 ≤ x) : IsSize (nearestSize x) := by
  have htwo := two_zpow_pos (lastPlace x)
  have hleast : -149 ≤ lastPlace x := le_max_right _ _
  have hle : toEven (x / 2 ^ lastPlace x) ≤ 2 ^ 24 := by
    apply (nearest_div hx).le_of_le
    rw [div_le_iff₀ htwo, Nat.cast_pow, Nat.cast_ofNat, ← zpow_natCast, ← zpow_add₀ (by norm_num),
      add_comm]
    exact (lt_two_zpow x).le
  rcases hle.lt_or_eq with hlt | hcarry
  · exact ⟨_, lastPlace x, hlt, hleast, rfl⟩
  · refine ⟨2 ^ 23, lastPlace x + 1, by norm_num, by omega, ?_⟩
    rw [nearestSize, hcarry, zpow_add_one₀ (by norm_num)]
    push_cast
    ring

/-- No size of binary32 is nearer to a number than the one it is rounded to. -/
theorem IsSize.abs_sub_nearestSize_le (ha : IsSize a) (hx : 0 ≤ x) :
    |x - nearestSize x| ≤ |x - a| := by
  rcases hx.eq_or_lt with rfl | hpos
  · rw [nearestSize_zero, sub_zero, abs_zero]
    exact abs_nonneg _
  have htwo := two_zpow_pos (lastPlace x)
  have hmultiple (k : ℕ) : |x - nearestSize x| ≤ |x - k * 2 ^ lastPlace x| := by
    rw [nearestSize, abs_sub_mul_step htwo, abs_sub_mul_step htwo]
    exact mul_le_mul_of_nonneg_right ((nearest_div hx).abs_sub_le k) htwo.le
  rcases le_total a x with hax | hxa
  · obtain ⟨k, hak, hkx⟩ := ha.multiple_between hpos hax
    calc |x - nearestSize x| ≤ |x - k * 2 ^ lastPlace x| := hmultiple k
      _ = x - k * 2 ^ lastPlace x := abs_of_nonneg (sub_nonneg.2 hkx)
      _ ≤ x - a := sub_le_sub_left hak x
      _ = |x - a| := (abs_of_nonneg (sub_nonneg.2 hax)).symm
  · obtain ⟨k, rfl⟩ := ha.multiple_of_le hpos hxa
    exact hmultiple k

end Sizes

section Places

variable {s s' : Sign} {x a : ℚ}

theorem IsSize.zero : IsSize 0 := ⟨0, 0, by norm_num, by norm_num, by norm_num⟩

theorem IsSize.passes (s s' : Sign) (ha : IsSize a) (hx : 0 ≤ x) :
    (signed s x ≤ signed s' a → signed s (nearestSize x) ≤ signed s' a) ∧
      (signed s' a ≤ signed s x → signed s' a ≤ signed s (nearestSize x)) :=
  signed_passes s s' hx (nearestSize_nonneg x) ha.nonneg (IsSize.zero.nearestSize_le hx)
    (ha.nearestSize_le hx) (ha.le_nearestSize hx)

theorem coe_le_coe {q r : ℚ} (h : q ≤ r) :
    ((q : WithTop ℚ) : WithBot (WithTop ℚ)) ≤ (r : WithTop ℚ) :=
  WithBot.coe_le_coe.2 (WithTop.coe_le_coe.2 h)

/-- A number that is not above one of binary32 is not rounded to above it. -/
theorem IsSize.round_le (ha : IsSize a) (hlarge : a < 2 ^ 128) (hx : 0 ≤ x)
    (h : signed s x ≤ signed s' a) : round s x ≤ (signed s' a : WithTop ℚ) := by
  have hle := (ha.passes s s' hx).1 h
  have hnonneg := ha.nonneg
  unfold round
  split
  · exact coe_le_coe hle
  · rename_i hover
    cases s with
    | negative => exact bot_le
    | positive => cases s' <;> simp only [signed] at hle <;> linarith

/-- A number that is not below one of binary32 is not rounded to below it. -/
theorem IsSize.le_round (ha : IsSize a) (hlarge : a < 2 ^ 128) (hx : 0 ≤ x)
    (h : signed s' a ≤ signed s x) : (signed s' a : WithTop ℚ) ≤ round s x := by
  have hle := (ha.passes s s' hx).2 h
  have hnonneg := ha.nonneg
  unfold round
  split
  · exact coe_le_coe hle
  · rename_i hover
    cases s with
    | negative => cases s' <;> simp only [signed] at hle <;> linarith
    | positive => exact WithBot.coe_le_coe.2 le_top

/-- What is near to a number of binary32 is rounded to it. -/
theorem IsSize.round_eq (s : Sign) (ha : IsSize a) (hlarge : a < 2 ^ 128)
    (h : |x - a| ≤ a / 2 ^ 53) : round s x = (signed s a : WithTop ℚ) := by
  have hsize : nearestSize x = a := by
    rcases ha.nonneg.eq_or_lt with rfl | hpos
    · rw [sub_zero, zero_div] at h
      rw [abs_nonpos_iff.1 h, nearestSize_zero]
    · exact ha.nearestSize_eq hpos h
  rw [round, hsize, if_pos hlarge]

/-- Every number of binary32 is a double. -/
theorem IsSize.isDouble (s : Sign) (ha : IsSize a) (hlarge : a < 2 ^ 128) :
    IsDouble (signed s a) := by
  obtain ⟨m, e, hm, he, rfl⟩ := ha
  rcases Nat.eq_zero_or_pos m with rfl | hpos
  · have := isDouble_signed s .zero (by norm_num)
    rwa [Nat.cast_zero, zero_mul] at this ⊢
  obtain ⟨k, f, hlow, hhigh, hleast, -, hsize⟩ := exists_full hpos (hm.trans (by norm_num)) e
  rw [← hsize] at hlarge ⊢
  refine isDouble_signed s ⟨hhigh, by omega, .inr hlow⟩ (not_lt.1 fun hlt => ?_)
  have hone : (1 : ℚ) ≤ k := by exact_mod_cast (by omega : 1 ≤ k)
  have : (2 : ℚ) ^ 128 < 2 ^ 128 := calc
    (2 : ℚ) ^ 128 = 2 ^ (128 : ℤ) := by norm_num
    _ ≤ 2 ^ f := zpow_le_zpow_right₀ (by norm_num) (by omega)
    _ ≤ k * 2 ^ f := le_mul_of_one_le_left (two_zpow_pos f).le hone
    _ < 2 ^ 128 := hlarge
  exact this.false

/-- Rounding gives a place that binary32 has. -/
theorem exists_exact (s : Sign) (hx : 0 ≤ x) :
    ∃ v : Float, Exact v ∧ Scalar.isNaN v = false ∧ Placed.place v = round s x := by
  unfold round
  split
  · rename_i hlarge
    have hsize := isSize_nearestSize hx
    obtain ⟨v, hv, hvalue⟩ := hsize.isDouble s hlarge
    refine ⟨v, fun _ => ⟨s, _, hsize, hlarge, hvalue⟩, Placed.isNaN_of_isFinite hv, ?_⟩
    rw [← hvalue]
    exact placeOf_of_isFinite hv
  · have hunpack : (Float.ofModel (.pack (.infinity s))).toModel.unpack = .infinity s :=
      unpack_ofModel_pack trivial
    refine ⟨.ofModel (.pack (.infinity s)), fun h => ?_, ?_, congrArg placeOf hunpack⟩
    · rw [isFinite_unpack, hunpack] at h
      cases h
    · exact congrArg UnpackedFloat.isNaN hunpack

end Places

end ClauseTriage.Single
