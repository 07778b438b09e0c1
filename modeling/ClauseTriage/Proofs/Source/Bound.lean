import ClauseTriage.Proofs.Double.Single
import ClauseTriage.Proofs.Source.Statement

/-!
# Bounds of the host program

The host program reads the literal of a threshold as a number of binary32 and compares numbers of
binary32 with it. It takes the branch of the threshold itself but for one value: a number that the
literal is rounded up to is above the threshold and not above the bound.
-/
namespace ClauseTriage.Source

open Code Decimal Double Single

/-- The place of the bound that a literal is read as: the decimal before the suffix, in binary32. -/
def boundOf? (literal : List Char) : Option (WithBot (WithTop ℚ)) := do
  match ← numeral? (← stripBack? ['f'] literal) with
  | .decimal p => some (round (Double.signOf p.negative) p.size)
  | _ => none

/-- The host's comparison of a number with a bound; what is not a number is not below any. -/
def AtMost (v : Float) (bound : WithBot (WithTop ℚ)) : Prop :=
  Scalar.isNaN v = false ∧ Placed.place v ≤ bound

section Literals

variable {x : Float}

/-- A literal writes a decimal that rounds to its double. Where binary32 has the double too, the
decimal is as near to it as 53 places are. -/
theorem exists_decimal_literal (hx : x.isFinite = true) :
    ∃ p a, numeral? (literal x).toList = some (.decimal p) ∧ 0 ≤ a ∧
      value x = signed (Double.signOf p.negative) a ∧
      Rounded (signed (Double.signOf p.negative) p.size) (value x) ∧
      (IsSize a → |p.size - a| ≤ a / 2 ^ 53) := by
  obtain ⟨b, hb⟩ := isFinite_iff.1 hx
  obtain ⟨hc, -⟩ := canonical_of_magnitude hb
  have hvalue : value x = signed (Double.signOf b.negative) b.size := value_of_magnitude hb
  rw [literal, Style.write, String.toList_ofList]
  by_cases hzero : b.mantissa = 0
  · obtain ⟨p, hp, hsign, hdigits⟩ := numeral?_chars_zero Style.literal hb hzero
    have hsize : p.size = b.size := by
      rw [Parts.size, hdigits, Binary.size, hzero, Nat.cast_zero, zero_mul, zero_mul]
    rw [← hsign] at hvalue
    refine ⟨p, b.size, hp, b.size_nonneg, hvalue, ?_, fun ha => ?_⟩
    · rw [hsize, hvalue]
      exact .refl _
    · rw [hsize, sub_self, abs_zero]
      exact div_nonneg ha.nonneg (by norm_num)
  · obtain ⟨p, hp, hsign, hrounds⟩ := numeral?_chars Style.literal hb hzero
    have hpos := Nat.pos_of_ne_zero hzero
    have hsize : 0 ≤ p.size := (two_zpow_pos _).le.trans (hrounds.two_pow_le hc hpos)
    rw [← hsign] at hvalue
    refine ⟨p, b.size, hp, b.size_nonneg, hvalue, ?_, fun ha => ?_⟩
    · rw [hvalue]
      exact (hrounds.nearestDouble hc hpos).rounded _ hsize
    · exact hrounds.abs_sub_le (ha.full hc hpos)

end Literals

section Bounds

variable {t v : Float} {bound : WithBot (WithTop ℚ)}

theorem place_of_isFinite (hv : v.isFinite = true) : Placed.place v = (value v : WithTop ℚ) :=
  placeOf_of_isFinite hv

theorem coe_lt_coe {q r : ℚ} :
    ((q : WithTop ℚ) : WithBot (WithTop ℚ)) < (r : WithTop ℚ) ↔ q < r :=
  WithBot.coe_lt_coe.trans WithTop.coe_lt_coe

theorem le_iff_place (ht : t.isFinite = true) :
    v ≤ t ↔ Scalar.isNaN v = false ∧ Placed.place v ≤ Placed.place t := by
  have hnumber : Scalar.isNaN t = false := Placed.isNaN_of_isFinite ht
  have hle : v ≤ t ↔ Scalar.le v t = true := decide_eq_true_iff.symm
  rw [hle, Placed.le_iff, hnumber]
  simp only [true_and]

theorem lt_iff_place (ht : t.isFinite = true) :
    t < v ↔ Scalar.isNaN v = false ∧ Placed.place t < Placed.place v := by
  have hnumber : Scalar.isNaN t = false := Placed.isNaN_of_isFinite ht
  have hlt : t < v ↔ Scalar.lt t v = true := decide_eq_true_iff.symm
  rw [hlt, Placed.lt_iff, hnumber]
  simp only [true_and]

/-- A place of binary32 that a threshold can be rounded to: no number of binary32 lies between the
two, and where binary32 has the threshold they are the same. -/
structure Bounds (t : Float) (bound : WithBot (WithTop ℚ)) : Prop where
  exact : ∃ v, Exact v ∧ Scalar.isNaN v = false ∧ Placed.place v = bound
  below : ∀ v, Exact v → Scalar.isNaN v = false → Placed.place v < Placed.place t →
    Placed.place v ≤ bound
  above : ∀ v, Exact v → Scalar.isNaN v = false → Placed.place t < Placed.place v →
    bound ≤ Placed.place v
  same : ∀ v, Exact v → Scalar.isNaN v = false → Placed.place v = Placed.place t →
    Placed.place v = bound

/-- A finite double that binary32 has is a size with a sign; any other number of it is at an end. -/
theorem exact_cases (hexact : Exact v) (hnumber : Scalar.isNaN v = false) :
    (∃ s a, IsSize a ∧ a < 2 ^ 128 ∧ v.isFinite = true ∧ value v = signed s a) ∨
      Placed.place v = ⊥ ∨ Placed.place v = (⊤ : WithTop ℚ) := by
  by_cases hv : v.isFinite = true
  · obtain ⟨s, a, ha, hlarge, hvalue⟩ := hexact hv
    exact .inl ⟨s, a, ha, hlarge, hv, hvalue⟩
  · right
    by_contra hne
    rw [not_or] at hne
    exact hv (Placed.isFinite_iff.2 ⟨hnumber, hne⟩)

/-- The infinities are on their sides of any place, so finite numbers alone make a bound one. -/
theorem Bounds.of_sizes (ht : t.isFinite = true)
    (hexact : ∃ v, Exact v ∧ Scalar.isNaN v = false ∧ Placed.place v = bound)
    (hbelow : ∀ s a, IsSize a → a < 2 ^ 128 → signed s a < value t →
      (signed s a : WithTop ℚ) ≤ bound)
    (habove : ∀ s a, IsSize a → a < 2 ^ 128 → value t < signed s a →
      bound ≤ (signed s a : WithTop ℚ))
    (hsame : ∀ s a, IsSize a → a < 2 ^ 128 → signed s a = value t →
      (signed s a : WithTop ℚ) = bound) : Bounds t bound := by
  refine ⟨hexact, fun v hv hnumber => ?_, fun v hv hnumber => ?_, fun v hv hnumber => ?_⟩ <;>
    rw [place_of_isFinite ht] <;>
    rcases exact_cases hv hnumber with ⟨s, a, ha, hlarge, hfinite, hvalue⟩ | hbot | htop
  · rw [place_of_isFinite hfinite, hvalue, coe_lt_coe]
    exact hbelow s a ha hlarge
  · exact fun _ => hbot ▸ bot_le
  · exact fun h => absurd (WithBot.coe_lt_coe.1 (htop ▸ h)) not_top_lt
  · rw [place_of_isFinite hfinite, hvalue, coe_lt_coe]
    exact habove s a ha hlarge
  · exact fun h => absurd (hbot ▸ h) not_lt_bot
  · exact fun _ => htop ▸ le_top
  · rw [place_of_isFinite hfinite, hvalue]
    exact fun h => hsame s a ha hlarge (WithTop.coe_injective (WithBot.coe_injective h))
  · exact fun h => absurd (hbot.symm.trans h) WithBot.bot_ne_coe
  · exact fun h => absurd (WithBot.coe_injective (htop.symm.trans h)) WithTop.top_ne_coe

theorem boundOf?_thresholdLiteral {p : Parts}
    (hp : numeral? (literal t).toList = some (.decimal p)) :
    boundOf? (thresholdLiteral t).toList = some (round (Double.signOf p.negative) p.size) := by
  have hsuffix : (thresholdLiteral t).toList = (literal t).toList ++ ['f'] := String.toList_append
  rw [boundOf?, hsuffix]
  simp only [stripBack?_append, Option.bind_eq_bind, Option.bind_some, hp]

/-- The literal of a threshold is read as a bound of it. -/
theorem exists_bound (ht : t.isFinite = true) :
    ∃ bound, boundOf? (thresholdLiteral t).toList = some bound ∧ Bounds t bound := by
  obtain ⟨p, a, hp, hnonneg, hvalue, hrounded, hnear⟩ := exists_decimal_literal ht
  have hsize : 0 ≤ p.size := mul_nonneg (Nat.cast_nonneg _) (ten_zpow_pos _).le
  refine ⟨_, boundOf?_thresholdLiteral hp, .of_sizes ht (exists_exact _ hsize)
    (fun s y hy hlarge hlt => ?_) (fun s y hy hlarge hlt => ?_) fun s y hy hlarge heq => ?_⟩
  -- a decimal on the other side of the number would not round to the threshold
  · have hdecimal := not_le.1 fun hle => hlt.not_ge ((hrounded _ (hy.isDouble s hlarge)).1 hle)
    exact hy.le_round hlarge hsize hdecimal.le
  · have hdecimal := not_le.1 fun hle => hlt.not_ge ((hrounded _ (hy.isDouble s hlarge)).2 hle)
    exact hy.round_le hlarge hsize hdecimal.le
  · obtain rfl : y = a := by
      rw [← abs_of_nonneg hy.nonneg, ← abs_signed s, heq, hvalue, abs_signed,
        abs_of_nonneg hnonneg]
    rw [heq, hvalue]
    exact (hy.round_eq _ hlarge (hnear hy)).symm

/-- The host's comparison goes the other way only where the bound itself is above the threshold. -/
theorem Bounds.atMost_iff (h : Bounds t bound) (ht : t.isFinite = true) (hv : Exact v) :
    (v ≤ t ↔ AtMost v bound) ↔ ¬(t < v ∧ Placed.place v = bound) := by
  rw [le_iff_place ht, lt_iff_place ht, AtMost]
  by_cases hnumber : Scalar.isNaN v = false
  · simp only [hnumber, true_and]
    rcases lt_trichotomy (Placed.place v) (Placed.place t) with hlt | heq | hlt
    · exact iff_of_true (iff_of_true hlt.le (h.below v hv hnumber hlt)) fun h => h.1.not_gt hlt
    · exact iff_of_true (iff_of_true heq.le (h.same v hv hnumber heq).le) fun h => h.1.ne' heq
    · rw [iff_false_left hlt.not_ge, (h.above v hv hnumber hlt).ge_iff_eq']
      simp only [hlt, true_and, eq_comm]
  · exact iff_of_true (iff_of_false (fun h => hnumber h.1) fun h => hnumber h.1)
      fun h => hnumber h.1.1

/-- A bound that is not above its threshold decides as the threshold does. -/
theorem Bounds.atMost_iff_of_le (h : Bounds t bound) (ht : t.isFinite = true)
    (hle : bound ≤ Placed.place t) (hv : Exact v) : v ≤ t ↔ AtMost v bound := by
  refine (h.atMost_iff ht hv).2 fun ⟨hlt, heq⟩ => ?_
  exact ((lt_iff_place ht).1 hlt).2.not_ge (heq.trans_le hle)

/-- The host program takes the branch of a threshold on every number of binary32 except one above it
that the literal is rounded up to. So it does on all of them where the bound is not above the
threshold, and only there. -/
theorem bound_decides_iff (ht : t.isFinite = true) :
    ∃ bound, boundOf? (thresholdLiteral t).toList = some bound ∧
      (∀ v, Exact v → ((v ≤ t ↔ AtMost v bound) ↔ ¬(t < v ∧ Placed.place v = bound))) ∧
      ((∀ v, Exact v → (v ≤ t ↔ AtMost v bound)) ↔ bound ≤ Placed.place t) := by
  obtain ⟨bound, hbound, h⟩ := exists_bound ht
  refine ⟨bound, hbound, fun v => h.atMost_iff ht, fun hall => not_lt.1 fun hlt => ?_,
    fun hle v => h.atMost_iff_of_le ht hle⟩
  obtain ⟨v, hv, hnumber, hplace⟩ := h.exact
  rw [← hplace] at hlt
  exact (h.atMost_iff ht hv).1 (hall v hv) ⟨(lt_iff_place ht).2 ⟨hnumber, hlt⟩, hplace⟩

/-- The number of binary32 that is nearest to a tenth, and above it. -/
theorem exact_tenth : Exact 0.10000000149011612 := fun _ =>
  ⟨.positive, 13421773 * 2 ^ (-27 : ℤ), ⟨13421773, -27, by norm_num, by norm_num, rfl⟩, by norm_num,
    by decide +kernel⟩

theorem bound_decides_iff_tenth :
    (0.1 : Float).isFinite = true ∧ Exact 0.10000000149011612 ∧
      ∃ bound, boundOf? (thresholdLiteral 0.1).toList = some bound ∧
        (((0.10000000149011612 : Float) ≤ 0.1 ↔ AtMost 0.10000000149011612 bound) ↔
          ¬((0.1 : Float) < 0.10000000149011612 ∧
            Placed.place (0.10000000149011612 : Float) = bound)) ∧
        ((∀ v, Exact v → (v ≤ 0.1 ↔ AtMost v bound)) ↔ bound ≤ Placed.place (0.1 : Float)) := by
  have hfinite : (0.1 : Float).isFinite = true := by decide +kernel
  obtain ⟨bound, hbound, hdiffers, hall⟩ := bound_decides_iff hfinite
  exact ⟨hfinite, exact_tenth, bound, hbound, hdiffers _ exact_tenth, hall⟩

/-- The literal of a tenth is rounded up, and the number it is rounded to takes the other branch. -/
theorem bound_differs_tenth :
    (0.1 : Float).isFinite = true ∧ Exact 0.10000000149011612 ∧
      ∃ bound, boundOf? (thresholdLiteral 0.1).toList = some bound ∧
        ¬((0.10000000149011612 : Float) ≤ 0.1 ↔ AtMost 0.10000000149011612 bound) := by
  have hbound : boundOf? (thresholdLiteral 0.1).toList =
      some (Placed.place (0.10000000149011612 : Float)) := by decide +kernel
  have hnot : ¬(0.10000000149011612 : Float) ≤ 0.1 := by decide +kernel
  have hnumber : Scalar.isNaN (0.10000000149011612 : Float) = false := by decide +kernel
  exact ⟨by decide +kernel, exact_tenth, _, hbound, fun h => hnot (h.2 ⟨hnumber, le_rfl⟩)⟩

end Bounds

section Bodies

instance (v : Float) (bound : WithBot (WithTop ℚ)) : Decidable (AtMost v bound) :=
  inferInstanceAs (Decidable (_ ∧ _))

/-- The value of a body in the host program, with a value for each accessor. -/
def hostValueOf? (env : String → Float) : Statement → Option Float
  | .result literal => ratioOf? literal.toList
  | .branch accessor threshold low high => do
    let bound ← boundOf? threshold.toList
    if AtMost (env accessor) bound then hostValueOf? env low else hostValueOf? env high

/-- The bounds of an unfolded tree are not above its thresholds. -/
def RoundedDown : Node Float → Prop
  | .leaf _ _ => True
  | .split _ _ _ threshold low high =>
    (∀ bound, boundOf? (thresholdLiteral threshold).toList = some bound →
      bound ≤ Placed.place threshold) ∧ RoundedDown low ∧ RoundedDown high

/-- Where no threshold is rounded up, the body of a tree has the same value in the host program. -/
theorem hostValueOf?_ofNode {accessors : List String} {n : Node Float} {env : String → Float}
    (h : Readable accessors n) (hdown : RoundedDown n) (henv : ∀ a, Exact (env a)) :
    hostValueOf? env (Statement.ofNode accessors n) =
      valueOf? env (Statement.ofNode accessors n) := by
  induction n with
  | leaf id w => rfl
  | split id w feature threshold low high ihl ihh =>
    obtain ⟨-, hthreshold, hlow, hhigh⟩ := h
    obtain ⟨hle, hdownLow, hdownHigh⟩ := hdown
    obtain ⟨bound, hbound, hbounds⟩ := exists_bound hthreshold
    have hdecides := hbounds.atMost_iff_of_le hthreshold (hle bound hbound)
      (henv (accessors.getD feature ""))
    simp only [Statement.ofNode, hostValueOf?, valueOf?, hbound,
      thresholdOf?_thresholdLiteral hthreshold, Option.bind_eq_bind, Option.bind_some, ← hdecides,
      ihl hlow hdownLow, ihh hhigh hdownHigh]

end Bodies

end ClauseTriage.Source
