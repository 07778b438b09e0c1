import ClauseTriage.Proofs.Double.Order
import ClauseTriage.Proofs.Double.Scientific

/-!
# Sums and quotients of doubles

Rounding passes no double: an exact result that is not above a double is rounded to one that is not
above it either. So bounds on exact sums and quotients are bounds on computed ones.
-/
namespace ClauseTriage.Double

open Float.Model Float.Model.UnpackedFloat

/-- The largest finite double. -/
def largest : ℚ := (2 ^ 53 - 1 : ℕ) * 2 ^ (971 : ℤ)

theorem two_pow_le_largest : (2 ^ 53 : ℚ) ≤ largest := by
  have hstep : (2 : ℚ) ^ (1 : ℤ) ≤ 2 ^ (971 : ℤ) := zpow_le_zpow_right₀ (by norm_num) (by norm_num)
  calc (2 ^ 53 : ℚ) ≤ (2 ^ 53 - 1 : ℕ) * 2 ^ (1 : ℤ) := by norm_num
    _ ≤ (2 ^ 53 - 1 : ℕ) * 2 ^ (971 : ℤ) := mul_le_mul_of_nonneg_left hstep (Nat.cast_nonneg _)

/-- The rationals that finite doubles stand for. -/
def IsDouble (q : ℚ) : Prop := ∃ x : Float, x.isFinite = true ∧ value x = q

/-- No double lies strictly between `q` and `r`. -/
def Rounded (q r : ℚ) : Prop := ∀ d, IsDouble d → (q ≤ d → r ≤ d) ∧ (d ≤ q → d ≤ r)

/-- What an operation gives before it is packed: a finite double next to the exact result. -/
structure Gives (u : UnpackedFloat) (q : ℚ) : Prop where
  fits : Fits u
  finite : u.isFinite = true
  rounded : Rounded q (number u)

theorem Rounded.refl (q : ℚ) : Rounded q q := fun _ _ => ⟨id, id⟩

section Sizes

variable {m n : ℕ} {e t : ℤ} {x : ℚ}

theorem isDouble_signed (s : Sign) (hc : Canonical m e) (he : e ≤ 971) :
    IsDouble (signed s (m * 2 ^ e)) := by
  by_cases hm : m = 0
  · have hfits : Fits (.zero s) := trivial
    refine ⟨.ofModel (.pack (.zero s)), ?_, ?_⟩
    · rw [isFinite_unpack, unpack_ofModel_pack hfits]
      rfl
    · rw [value, unpack_ofModel_pack hfits, hm]
      cases s <;> simp [number, signed]
  · have hfits : Fits (.finite s m e (Nat.pos_of_ne_zero hm)) := ⟨hc, he⟩
    refine ⟨.ofModel (.pack (.finite s m e (Nat.pos_of_ne_zero hm))), ?_, ?_⟩
    · rw [isFinite_unpack, unpack_ofModel_pack hfits]
      rfl
    · rw [value, unpack_ofModel_pack hfits]
      rfl

theorem number_eq_signed {u : UnpackedFloat} (hu : Fits u) :
    ∃ s m e, Canonical m e ∧ e ≤ 971 ∧ number u = signed s (m * 2 ^ e) := by
  cases u with
  | finite s m e hm => exact ⟨s, m, e, hu.1, hu.2, rfl⟩
  | _ => exact ⟨.positive, 0, -1074, .zero, by norm_num, by simp [number, signed]⟩

theorem IsDouble.eq_signed {q : ℚ} (h : IsDouble q) :
    ∃ s m e, Canonical m e ∧ e ≤ 971 ∧ q = signed s (m * 2 ^ e) := by
  obtain ⟨x, -, rfl⟩ := h
  exact number_eq_signed (fits_unpack x)

/-- A larger double is a multiple of a smaller step. -/
theorem size_eq_mul (h : t ≤ e) : (m * 2 ^ e : ℚ) = (m * 2 ^ (e - t).toNat : ℕ) * 2 ^ t := by
  push_cast
  rw [mul_assoc, ← zpow_natCast, ← zpow_add₀ (by norm_num)]
  congr 2
  omega

theorem Quantum.nearest_le (hq : Quantum x t) (hn : Nearest (x / 2 ^ t) n) : n ≤ 2 ^ 53 := by
  apply hn.le_of_le
  rw [div_le_iff₀ (two_zpow_pos t), Nat.cast_pow, Nat.cast_ofNat, ← zpow_natCast,
    ← zpow_add₀ (by norm_num), add_comm]
  exact hq.below.le

theorem Quantum.le_nearest (hq : Quantum x t) (hn : Nearest (x / 2 ^ t) n) (ht : t ≠ -1074) :
    2 ^ 52 ≤ n := by
  apply hn.le_of_ge
  rw [le_div_iff₀ (two_zpow_pos t), Nat.cast_pow, Nat.cast_ofNat, ← zpow_natCast,
    ← zpow_add₀ (by norm_num), add_comm]
  exact hq.full.resolve_left ht

/-- A size that is not above a double is not rounded to above it. -/
theorem Quantum.le_size (hq : Quantum x t) (hn : Nearest (x / 2 ^ t) n) (hc : Canonical m e)
    (hx : x ≤ m * 2 ^ e) : (n * 2 ^ t : ℚ) ≤ m * 2 ^ e := by
  rcases le_or_gt t e with h | h
  · rw [size_eq_mul h, ← div_le_iff₀ (two_zpow_pos t)] at hx
    have hnk : (n : ℚ) ≤ (m * 2 ^ (e - t).toNat : ℕ) := by exact_mod_cast hn.le_of_le hx
    rw [size_eq_mul h]
    exact mul_le_mul_of_nonneg_right hnk (two_zpow_pos t).le
  · have hleast := hc.least
    have hfull : (2 : ℚ) ^ (t + 52) ≤ x := hq.full.resolve_left (by omega)
    have : x < x := calc
      x ≤ m * 2 ^ e := hx
      _ < 2 ^ (e + 53) := hc.lt_two_zpow
      _ ≤ 2 ^ (t + 52) := zpow_le_zpow_right₀ (by norm_num) (by omega)
      _ ≤ x := hfull
    exact absurd this (lt_irrefl x)

/-- A size that is not below a double is not rounded to below it. -/
theorem Quantum.size_le (hq : Quantum x t) (hn : Nearest (x / 2 ^ t) n) (hc : Canonical m e)
    (hx : m * 2 ^ e ≤ x) : (m * 2 ^ e : ℚ) ≤ n * 2 ^ t := by
  rcases le_or_gt t e with h | h
  · rw [size_eq_mul h, ← le_div_iff₀ (two_zpow_pos t)] at hx
    have hnk : ((m * 2 ^ (e - t).toNat : ℕ) : ℚ) ≤ n := by exact_mod_cast hn.le_of_ge hx
    rw [size_eq_mul h]
    exact mul_le_mul_of_nonneg_right hnk (two_zpow_pos t).le
  · have hleast := hc.least
    have hn := hq.le_nearest hn (by omega)
    calc (m * 2 ^ e : ℚ) ≤ 2 ^ (e + 53) := hc.lt_two_zpow.le
      _ ≤ 2 ^ ((52 : ℕ) + t) := zpow_le_zpow_right₀ (by norm_num) (by push_cast; omega)
      _ = 2 ^ 52 * 2 ^ t := by rw [zpow_add₀ (by norm_num), zpow_natCast]
      _ ≤ n * 2 ^ t := by
        have : (2 ^ 52 : ℚ) ≤ n := by exact_mod_cast hn
        gcongr

theorem canonical_largest : Canonical (2 ^ 53 - 1) 971 :=
  ⟨by norm_num, by norm_num, .inr (by norm_num)⟩

/-- A rounded size that is not above the largest double can be packed. -/
theorem fits_carry (s : Sign) (hq : Quantum x t) (hn : Nearest (x / 2 ^ t) n) (hx : x ≤ largest) :
    Fits (carry s n t) := by
  have hle := hq.nearest_le hn
  have hlarge : (n * 2 ^ t : ℚ) ≤ (2 ^ 53 - 1 : ℕ) * 2 ^ (971 : ℤ) :=
    hq.le_size hn canonical_largest hx
  have hfull := hq.le_nearest hn
  have hleast := hq.least
  have hbound : ∀ k : ℕ, 2 ^ (k + 1) ≤ n → t + k < 971 + 52 := by
    intro k hk
    by_contra hlt
    have : largest < largest := calc
      largest < 2 ^ (971 + 53 : ℤ) := canonical_largest.lt_two_zpow
      _ ≤ 2 ^ (((k + 1 : ℕ) : ℤ) + t) := zpow_le_zpow_right₀ (by norm_num) (by push_cast; omega)
      _ = 2 ^ (k + 1) * 2 ^ t := by rw [zpow_add₀ (by norm_num), zpow_natCast]
      _ ≤ n * 2 ^ t := by
        have : (2 ^ (k + 1) : ℚ) ≤ n := by exact_mod_cast hk
        gcongr
      _ ≤ largest := hlarge
    exact this.false
  unfold carry
  split
  · trivial
  · split
    · rename_i hlt
      refine ⟨⟨hlt, hleast, ?_⟩, ?_⟩
      · by_cases ht : t = -1074
        · exact .inl ht
        · exact .inr (hfull ht)
      · by_cases ht : t = -1074
        · omega
        · have := hbound 51 (hfull ht)
          omega
    · have := hbound 52 (by omega)
      exact ⟨⟨by decide, by omega, .inr le_rfl⟩, by omega⟩

/-- A rounded size that is not zero is a double with the size in its interval. -/
theorem Quantum.exists_carry_eq (hq : Quantum x t) (hn : Nearest (x / 2 ^ t) n) (hpos : 0 < n) :
    ∃ m e, ∃ hm : 0 < m, Canonical m e ∧ RoundsTo m e x ∧ ∀ s, carry s n t = .finite s m e hm := by
  have htwo := two_zpow_pos t
  have hleast := hq.least
  obtain ⟨hlow, hhigh⟩ := abs_le.1 hn.1
  have hlow : (n - 1 / 2) * 2 ^ t ≤ x := (le_div_iff₀ htwo).1 (by linarith)
  have hhigh : x ≤ (n + 1 / 2) * 2 ^ t := (div_le_iff₀ htwo).1 (by linarith)
  by_cases hbelow : n < 2 ^ 53
  · have hcanonical : Canonical n t :=
      ⟨hbelow, hleast, or_iff_not_imp_left.2 fun ht => hq.le_nearest hn ht⟩
    refine ⟨n, t, hpos, hcanonical, ?_, fun s => by rw [carry, dif_neg hpos.ne', if_pos hbelow]⟩
    refine ⟨?_, hhigh, fun hodd => ?_⟩
    · split
      · rename_i hfirst
        have hfull := hq.full.resolve_left hfirst.2.ne'
        rw [add_comm, zpow_add₀ (by norm_num)] at hfull
        rw [hfirst.1]
        push_cast
        exact (mul_le_mul_of_nonneg_right (by norm_num) htwo.le).trans hfull
      · exact hlow
    · -- an odd mantissa is not a tie, so neither end is reached
      have hstrict : |x / 2 ^ t - n| < 1 / 2 := hn.1.lt_of_ne fun htie => by
        have := hn.2 htie
        omega
      obtain ⟨hlow, hhigh⟩ := abs_lt.1 hstrict
      rw [if_neg (by omega)]
      exact ⟨(lt_div_iff₀ htwo).1 (by linarith), (div_lt_iff₀ htwo).1 (by linarith)⟩
  · obtain rfl : n = 2 ^ 53 := le_antisymm (hq.nearest_le hn) (not_lt.1 hbelow)
    refine ⟨2 ^ 52, t + 1, by decide, ⟨by decide, by omega, .inr le_rfl⟩, ?_, fun s => ?_⟩
    · have hbelow := hq.below
      rw [zpow_add₀ (by norm_num)] at hbelow
      refine ⟨?_, ?_, fun hodd => by omega⟩
      · rw [if_pos ⟨rfl, by omega⟩, zpow_add_one₀ (by norm_num)]
        push_cast at hlow ⊢
        linarith
      · rw [zpow_add_one₀ (by norm_num)]
        push_cast
        norm_num at hbelow
        linarith
    · rw [carry, dif_neg (by decide), if_neg (by decide)]

/-- A double with too large an exponent is packed as an infinity. -/
theorem pack_overflow (s : Sign) (hm : 0 < m) (he : 971 < e) :
    UnpackedFloat.pack Format.binary64 (.finite s m e hm) =
      UnpackedFloat.pack Format.binary64 (.infinity s) := by
  have hbias : Format.binary64.exponentBias = 1023 := by decide
  have hbits : 2 ^ Format.binary64.exponentBits = 2048 := by decide
  simp only [UnpackedFloat.pack, hbias, hbits]
  rw [if_pos (by omega)]

theorem number_carry (s : Sign) (hn : n ≤ 2 ^ 53) :
    number (carry s n t) = signed s (n * 2 ^ t) := by
  unfold carry
  split
  · rename_i hzero
    rw [hzero]
    cases s <;> simp [number, signed]
  · split
    · rfl
    · have hcarried : n = 2 ^ 53 := by omega
      have : ((2 ^ 52 : ℕ) : ℚ) * 2 ^ (t + 1) = n * 2 ^ t := by
        rw [hcarried, zpow_add_one₀ (by norm_num)]
        push_cast
        ring
      rw [number, this]

theorem isFinite_carry (s : Sign) (n : ℕ) (t : ℤ) : (carry s n t).isFinite = true := by
  unfold carry
  split
  · rfl
  · split <;> rfl

end Sizes

/-- Rounding that passes no size passes no number either, whatever the signs. -/
theorem signed_passes {x r a : ℚ} (s s' : Sign) (hx : 0 ≤ x) (hr : 0 ≤ r) (ha : 0 ≤ a)
    (hzero : x ≤ 0 → r ≤ 0) (habove : x ≤ a → r ≤ a) (hbelow : a ≤ x → a ≤ r) :
    (signed s x ≤ signed s' a → signed s r ≤ signed s' a) ∧
      (signed s' a ≤ signed s x → signed s' a ≤ signed s r) := by
  cases s <;> cases s' <;> simp only [signed]
  · exact ⟨fun h => neg_le_neg (hbelow (neg_le_neg_iff.1 h)),
      fun h => neg_le_neg (habove (neg_le_neg_iff.1 h))⟩
  · refine ⟨fun _ => by linarith, fun h => ?_⟩
    have := hzero (by linarith)
    linarith
  · refine ⟨fun h => ?_, fun _ => by linarith⟩
    have := hzero (by linarith)
    linarith
  · exact ⟨habove, hbelow⟩

/-- Rounding a size rounds the number with either sign. -/
theorem rounded_signed {x r : ℚ} (s : Sign) (hx : 0 ≤ x) (hr : 0 ≤ r)
    (h : ∀ m e, Canonical m e → (x ≤ m * 2 ^ e → r ≤ m * 2 ^ e) ∧ (m * 2 ^ e ≤ x → m * 2 ^ e ≤ r)) :
    Rounded (signed s x) (signed s r) := by
  intro d hd
  obtain ⟨s', m, e, hc, -, rfl⟩ := hd.eq_signed
  obtain ⟨habove, hbelow⟩ := h m e hc
  obtain ⟨hzero, -⟩ := h 0 (-1074) .zero
  rw [Nat.cast_zero, zero_mul] at hzero
  exact signed_passes s s' hx hr (mul_nonneg (Nat.cast_nonneg m) (two_zpow_pos e).le) hzero habove
    hbelow

theorem RoundedFrom.gives {s : Sign} {x : ℚ} {u : UnpackedFloat} (h : RoundedFrom s x u)
    (hx : 0 ≤ x) (hlarge : x ≤ largest) : Gives u (signed s x) := by
  obtain ⟨n, t, hq, hn, rfl⟩ := h
  refine ⟨fits_carry s hq hn hlarge, isFinite_carry s n t, ?_⟩
  rw [number_carry s (hq.nearest_le hn)]
  exact rounded_signed s hx (mul_nonneg (Nat.cast_nonneg n) (two_zpow_pos t).le)
    fun m e hc => ⟨hq.le_size hn hc, hq.size_le hn hc⟩

section Operations

variable {u v : UnpackedFloat}

theorem Gives.self (hu : Fits u) (hfinite : u.isFinite = true) : Gives u (number u) :=
  ⟨hu, hfinite, .refl _⟩

/-- An integer times a power of two is rounded. -/
theorem gives_normalize {k f : ℤ} (h : |(k * 2 ^ f : ℚ)| ≤ largest) :
    Gives (UnpackedFloat.normalize Format.binary64 k f .positive) (k * 2 ^ f) := by
  have hpos := two_zpow_pos f
  rw [UnpackedFloat.normalize]
  rcases lt_trichotomy k 0 with hk | rfl | hk
  · rw [Int.compare_eq_lt.2 hk]
    have hsize : ((-k).toNat * 2 ^ f : ℚ) = -(k * 2 ^ f) := by
      have : ((-k).toNat : ℚ) = -k := by exact_mod_cast Int.toNat_of_nonneg (by omega : 0 ≤ -k)
      rw [this, neg_mul]
    have hneg : (k * 2 ^ f : ℚ) < 0 := mul_neg_of_neg_of_pos (by exact_mod_cast hk) hpos
    have := (roundedFrom_round (k := (-k).toNat) (f := f) (by omega) .negative).gives
    rw [hsize, signed, neg_neg] at this
    exact this (by linarith) (by rwa [abs_of_neg hneg] at h)
  · rw [Int.compare_eq_eq.2 rfl, Int.cast_zero, zero_mul]
    exact ⟨trivial, rfl, .refl 0⟩
  · rw [Int.compare_eq_gt.2 hk]
    have hsize : (k.toNat * 2 ^ f : ℚ) = k * 2 ^ f := by
      have : (k.toNat : ℚ) = k := by exact_mod_cast Int.toNat_of_nonneg hk.le
      rw [this]
    have hposk : (0 : ℚ) < k * 2 ^ f := mul_pos (by exact_mod_cast hk) hpos
    have := (roundedFrom_round (k := k.toNat) (f := f) (by omega) .positive).gives
    rw [hsize, signed] at this
    exact this hposk.le (by rwa [abs_of_pos hposk] at h)

theorem apply_decreaseExponent (s : Sign) {m : ℕ} {e t : ℤ} (h : t ≤ e) :
    (s.apply (decreaseExponent m e t).1 * 2 ^ t : ℚ) = signed s (m * 2 ^ e) := by
  have hvalue := decreaseExponent_eq (k := m) (f := e) (t := t)
  have ht : (decreaseExponent m e t).2 = t := by
    rw [decreaseExponent]
    dsimp only
    omega
  rw [ht] at hvalue
  rw [← hvalue]
  cases s <;> simp [Sign.apply, signed]

/-- A sum within the range of doubles is rounded from its exact value. -/
theorem gives_add (hu : Fits u) (hv : Fits v) (hu' : u.isFinite = true) (hv' : v.isFinite = true)
    (h : |number u + number v| ≤ largest) :
    Gives (UnpackedFloat.add Format.binary64 u v) (number u + number v) := by
  cases u with
  | notANumber => cases hu'
  | infinity s => cases hu'
  | zero s =>
    have hzero : number (.zero s) = 0 := rfl
    rw [hzero, zero_add]
    cases v with
    | notANumber => cases hv'
    | infinity s' => cases hv'
    | zero s' => cases s <;> cases s' <;> exact ⟨trivial, rfl, .refl 0⟩
    | finite s' n f hn => exact .self hv hv'
  | finite s m e hm =>
    cases v with
    | notANumber => cases hv'
    | infinity s' => cases hv'
    | zero s' =>
      have hzero : number (.zero s') = 0 := rfl
      rw [hzero, add_zero]
      exact .self hu hu'
    | finite s' n f hn =>
      have hsum : number (.finite s m e hm) + number (.finite s' n f hn) =
          ((s.apply (decreaseExponent m e (min e f)).1 +
            s'.apply (decreaseExponent n f (min e f)).1 : ℤ) : ℚ) * 2 ^ min e f := by
        rw [Int.cast_add, add_mul, apply_decreaseExponent s (min_le_left e f),
          apply_decreaseExponent s' (min_le_right e f)]
        rfl
      rw [hsum] at h ⊢
      exact gives_normalize h

/-- A quotient within the range of doubles is rounded from its exact value. -/
theorem gives_div (hu' : u.isFinite = true) (hv' : v.isFinite = true) (hne : number v ≠ 0)
    (h : |number u / number v| ≤ largest) :
    Gives (UnpackedFloat.div Format.binary64 u v) (number u / number v) := by
  cases v with
  | notANumber => cases hv'
  | infinity s' => cases hv'
  | zero s' => exact absurd rfl hne
  | finite s' n f hn =>
    cases u with
    | notANumber => cases hu'
    | infinity s => cases hu'
    | zero s =>
      have hzero : number (.zero s) = 0 := rfl
      rw [hzero, zero_div]
      exact ⟨trivial, rfl, .refl 0⟩
    | finite s m e hm =>
      have hpos := size_pos e hm
      have hpos' := size_pos f hn
      have hquotient : number (.finite s m e hm) / number (.finite s' n f hn) =
          signed (s / s') (m * 2 ^ e / (n * 2 ^ f)) := by
        cases s <;> cases s' <;> simp [number, signed, neg_div, div_neg] <;> rfl
      rw [hquotient, abs_signed, abs_of_pos (div_pos hpos hpos')] at h
      rw [hquotient]
      exact (roundedFrom_div hm hn s s').gives (div_pos hpos hpos').le h

end Operations

section Floats

variable {x y : Float}

/-- The double that an operation packs. -/
theorem Gives.pack {u : UnpackedFloat} {q : ℚ} (h : Gives u q) :
    (Float.ofModel (.pack u)).isFinite = true ∧ Rounded q (value (.ofModel (.pack u))) := by
  rw [isFinite_unpack, value, unpack_ofModel_pack h.fits]
  exact ⟨h.finite, h.rounded⟩

theorem add_rounded (hx : x.isFinite = true) (hy : y.isFinite = true)
    (h : |value x + value y| ≤ largest) :
    (x + y).isFinite = true ∧ Rounded (value x + value y) (value (x + y)) :=
  (gives_add (fits_unpack x) (fits_unpack y) hx hy h).pack

theorem div_rounded (hx : x.isFinite = true) (hy : y.isFinite = true) (hne : value y ≠ 0)
    (h : |value x / value y| ≤ largest) :
    (x / y).isFinite = true ∧ Rounded (value x / value y) (value (x / y)) :=
  (gives_div hx hy hne h).pack

end Floats

end ClauseTriage.Double
