import ClauseTriage.Json.Parser
import ClauseTriage.Json.Printer
import ClauseTriage.Proofs.Decimal.Layout

/-!
# JSON numbers in a text

A number is read to its end whatever stands behind it, as long as that cannot belong to a number;
so a number that is read back from its own text is read back wherever the printer puts it. Whole
numbers of 64 bits always are.
-/
namespace ClauseTriage.Json

open Decimal (digitsOf digitsOf_ne_nil isDigit_of_mem_digitsOf takeWhile_digits valueOfDigits_digitsOf)

/-- What the printer puts behind a value: nothing, a comma or a line break. -/
def Closed (rest : List Char) : Prop := ∀ c ∈ rest.head?, c = ',' ∨ c = '\n'

section Local

variable {α β : Type} {s rest : List Char}

/-- A reader that takes the same part of a text when more stands behind it. -/
def Local (rest : List Char) (read : List Char → Option (α × List Char)) : Prop :=
  ∀ ⦃s a r⦄, read s = some (a, r) → read (s ++ rest) = some (a, r ++ rest)

theorem local_some (a : α) : Local rest fun s => some (a, s) := by
  intro s b r h
  obtain ⟨rfl, rfl⟩ := Prod.mk.inj (Option.some.inj h)
  rfl

theorem Local.map {read : List Char → Option (α × List Char)} (hread : Local rest read) (f : α → β) :
    Local rest fun s => (read s).map fun x => (f x.1, x.2) := by
  intro s b r h
  obtain ⟨⟨a, t⟩, hs, ht⟩ := Option.map_eq_some_iff.1 h
  obtain ⟨rfl, rfl⟩ := Prod.mk.inj ht
  dsimp only
  rw [hread hs, Option.map_some]

theorem Local.bind {read : List Char → Option (α × List Char)}
    {next : α → List Char → Option (β × List Char)} (hread : Local rest read)
    (hnext : ∀ a, Local rest (next a)) : Local rest fun s => (read s).bind fun x => next x.1 x.2 := by
  intro s b r h
  obtain ⟨⟨a, t⟩, hs, ht⟩ := Option.bind_eq_some_iff.1 h
  dsimp only
  rw [hread hs, Option.bind_some]
  exact hnext a ht

theorem head_append {p : Char → Prop} (hs : ∀ c ∈ s.head?, p c) (hrest : ∀ c ∈ rest.head?, p c) :
    ∀ c ∈ (s ++ rest).head?, p c := by
  cases s with
  | nil => exact hrest
  | cons c s => exact hs

/-- A reader that does as another one where no text begins with a character of its own. -/
theorem Local.of_head {read other : List Char → Option (α × List Char)} {p : Char → Prop}
    (hother : Local rest other) (heq : ∀ ⦃s⦄, (∀ c ∈ s.head?, p c) → read s = other s)
    (hrest : ∀ c ∈ rest.head?, p c) (hs : ∀ c ∈ s.head?, p c) {a : α} {r : List Char}
    (h : read s = some (a, r)) : read (s ++ rest) = some (a, r ++ rest) := by
  rw [heq hs] at h
  rw [heq (head_append hs hrest)]
  exact hother h

theorem Closed.head (h : Closed rest) {p : Char → Prop} (hcomma : p ',') (hbreak : p '\n') :
    ∀ c ∈ rest.head?, p c := by
  intro c hc
  rcases h c hc with rfl | rfl
  · exact hcomma
  · exact hbreak

end Local

section Parts

variable {s rest : List Char}

theorem digits?_append {ds tail : List Char} (hne : ds ≠ []) (hds : ∀ c ∈ ds, c.isDigit = true)
    (htail : ∀ c ∈ tail.head?, c.isDigit = false) : digits? (ds ++ tail) = some (ds, tail) := by
  obtain ⟨htake, hdrop⟩ := takeWhile_digits tail hds htail
  rw [digits?, htake, hdrop, if_neg (by simpa using hne)]

theorem digits?_eq_some {ds r : List Char} (h : digits? s = some (ds, r)) :
    s = ds ++ r ∧ ds ≠ [] ∧ (∀ c ∈ ds, c.isDigit = true) ∧ ∀ c ∈ r.head?, c.isDigit = false := by
  rw [digits?] at h
  split at h
  · cases h
  · rename_i hne
    obtain ⟨rfl, rfl⟩ := Prod.mk.inj (Option.some.inj h)
    refine ⟨List.takeWhile_append_dropWhile.symm, by simpa using hne,
      fun c hc => List.mem_takeWhile_imp hc, fun c hc => ?_⟩
    have := List.head?_dropWhile_not Char.isDigit s
    rw [hc] at this
    simpa using this

theorem local_digits? (hrest : Closed rest) : Local rest digits? := by
  intro s ds r h
  obtain ⟨rfl, hne, hds, hr⟩ := digits?_eq_some h
  rw [List.append_assoc]
  exact digits?_append hne hds (head_append hr (hrest.head (by decide) (by decide)))

theorem local_whole? (hrest : Closed rest) : Local rest whole? := by
  intro s ds r h
  unfold whole? at h ⊢
  split at h
  · cases h
  · rename_i hzero
    rw [local_digits? hrest h]
    split
    · rename_i heq
      obtain ⟨rfl, -⟩ := Prod.mk.inj (Option.some.inj heq)
      exact absurd h (hzero _ _ _)
    · rfl

theorem exponent?_unsigned (h : ∀ c ∈ s.head?, c ≠ '+' ∧ c ≠ '-') :
    exponent? s = (digits? s).map fun x => ((false, x.1), x.2) := by
  unfold exponent?
  cases s with
  | nil => rfl
  | cons c s =>
    obtain ⟨hplus, hminus⟩ := h c rfl
    simp [hplus, hminus]

theorem local_exponent? (hrest : Closed rest) : Local rest exponent? := by
  intro s e r h
  have hdigits (down : Bool) := (local_digits? hrest).map fun ds => (down, ds)
  by_cases hplus : s.head? = some '+'
  · obtain ⟨s, rfl⟩ := List.head?_eq_some_iff.1 hplus
    exact hdigits false h
  by_cases hminus : s.head? = some '-'
  · obtain ⟨s, rfl⟩ := List.head?_eq_some_iff.1 hminus
    exact hdigits true h
  apply (hdigits false).of_head (fun _ => exponent?_unsigned) (hrest.head (by decide) (by decide)) ?_ h
  exact fun c hc => ⟨fun heq => hplus (heq ▸ hc), fun heq => hminus (heq ▸ hc)⟩

/-- The part after the point. -/
def fraction? : List Char → Option (Option (List Char) × List Char)
  | '.' :: r => (digits? r).map fun x => (some x.1, x.2)
  | r => some (none, r)

theorem fraction?_none (h : ∀ c ∈ s.head?, c ≠ '.') : fraction? s = some (none, s) := by
  unfold fraction?
  split
  · exact absurd rfl (h '.' rfl)
  · rfl

theorem local_fraction? (hrest : Closed rest) : Local rest fraction? := by
  intro s f r h
  by_cases hpoint : s.head? = some '.'
  · obtain ⟨s, rfl⟩ := List.head?_eq_some_iff.1 hpoint
    exact (local_digits? hrest).map some h
  apply (local_some none).of_head (fun _ => fraction?_none) (hrest.head (by decide) (by decide)) ?_ h
  exact fun c hc heq => hpoint (heq ▸ hc)

/-- The part after the fraction. -/
def power? : List Char → Option (Option (Bool × List Char) × List Char)
  | 'e' :: r | 'E' :: r => (exponent? r).map fun x => (some x.1, x.2)
  | r => some (none, r)

theorem power?_none (h : ∀ c ∈ s.head?, c ≠ 'e' ∧ c ≠ 'E') : power? s = some (none, s) := by
  unfold power?
  split
  · exact absurd rfl (h 'e' rfl).1
  · exact absurd rfl (h 'E' rfl).2
  · rfl

theorem local_power? (hrest : Closed rest) : Local rest power? := by
  intro s p r h
  by_cases hlower : s.head? = some 'e'
  · obtain ⟨s, rfl⟩ := List.head?_eq_some_iff.1 hlower
    exact (local_exponent? hrest).map some h
  by_cases hupper : s.head? = some 'E'
  · obtain ⟨s, rfl⟩ := List.head?_eq_some_iff.1 hupper
    exact (local_exponent? hrest).map some h
  apply (local_some none).of_head (fun _ => power?_none) (hrest.head (by decide) (by decide)) ?_ h
  exact fun c hc => ⟨fun heq => hlower (heq ▸ hc), fun heq => hupper (heq ▸ hc)⟩

theorem fraction?_bind {β : Type} (next : Option (List Char) × List Char → Option β) :
    (fraction? s).bind next = match s with
      | '.' :: r => ((digits? r).map fun x => (some x.1, x.2)).bind next
      | r => next (none, r) := by
  unfold fraction?
  split <;> rfl

theorem power?_bind {β : Type} (next : Option (Bool × List Char) × List Char → Option β) :
    (power? s).bind next = match s with
      | 'e' :: r | 'E' :: r => ((exponent? r).map fun x => (some x.1, x.2)).bind next
      | r => next (none, r) := by
  unfold power?
  split <;> rfl

/-- A number has three parts, of which the last two may be missing. -/
theorem number?_eq (negative : Bool) (s : List Char) :
    number? negative s = (whole? s).bind fun w => (fraction? w.2).bind fun f =>
      (power? f.2).bind fun p => some ((Token.mk negative w.1 f.1 p.1).number, p.2) := by
  simp only [fraction?_bind, power?_bind]
  rfl

theorem local_number? (negative : Bool) (hrest : Closed rest) : Local rest (number? negative) := by
  have h := (local_whole? hrest).bind fun w => (local_fraction? hrest).bind fun f =>
    (local_power? hrest).bind fun p => local_some (Token.mk negative w f p).number
  simpa only [← number?_eq] using h

end Parts

section Values

variable {s r rest : List Char} {w : Written} {fuel : Nat}

theorem skipBlanks_idem (s : List Char) : skipBlanks (skipBlanks s) = skipBlanks s :=
  List.dropWhile_idempotent _ s

theorem not_isBlank_of_isDigit {c : Char} (h : c.isDigit = true) : isBlank c = false := by
  rw [Bool.eq_false_iff]
  intro hblank
  simp only [isBlank, Bool.or_eq_true, decide_eq_true_eq] at hblank
  rcases hblank with ((rfl | rfl) | rfl) | rfl <;> cases h

theorem skipBlanks_append (h : skipBlanks s ≠ []) :
    skipBlanks (s ++ rest) = skipBlanks s ++ rest := by
  rw [skipBlanks] at h
  rw [skipBlanks, List.dropWhile_append, if_neg (by simpa using h)]
  rfl

theorem skipBlanks_append_blank (h : skipBlanks s = []) :
    skipBlanks (s ++ rest) = skipBlanks rest := by
  rw [skipBlanks] at h
  rw [skipBlanks, List.dropWhile_append, if_pos (by simp [h])]
  rfl

/-- A number with its sign. -/
def signed? : List Char → Option (Written × List Char)
  | '-' :: r => number? true r
  | r => number? false r

theorem signed?_unsigned (h : ∀ c ∈ s.head?, c ≠ '-') : signed? s = number? false s := by
  unfold signed?
  split
  · exact absurd rfl (h '-' rfl)
  · rfl

theorem local_signed? (hrest : Closed rest) : Local rest signed? := by
  intro s w r h
  by_cases hminus : s.head? = some '-'
  · obtain ⟨s, rfl⟩ := List.head?_eq_some_iff.1 hminus
    exact local_number? true hrest h
  apply (local_number? false hrest).of_head (fun _ => signed?_unsigned)
    (hrest.head (by decide) (by decide)) ?_ h
  exact fun c hc heq => hminus (heq ▸ hc)

/-- A value that is a number is read by the reader of numbers. -/
theorem value?_eq_number_iff :
    value? (fuel + 1) s = some (.number w, r) ↔ signed? (skipBlanks s) = some (w, r) := by
  have hother {c : Char} {t : List Char} (hdigit : c.isDigit = false) (hminus : c ≠ '-') :
      signed? (c :: t) = none := by
    rw [signed?_unsigned (by simpa using hminus), number?_eq, whole?, digits?]
    simp [hdigit]
  unfold value?
  split
  all_goals rename_i heq
  · rw [heq, hother (by decide) (by decide)]
    split <;> simp
  · rw [heq, hother (by decide) (by decide)]
    split <;> simp
  · rw [heq, hother (by decide) (by decide)]
    simp
  · rw [heq]
    simp [signed?]
  · rw [heq, hother (by decide) (by decide)]
    simp [word?]
  · rw [heq, hother (by decide) (by decide)]
    simp [word?]
  · rw [heq, hother (by decide) (by decide)]
    simp [word?]
  · rename_i hminus _ _
    rw [signed?_unsigned]
    · simp
    · intro c hc hcminus
      obtain ⟨t, ht⟩ := List.head?_eq_some_iff.1 hc
      exact hminus t (hcminus ▸ ht)

end Values

section Whole

theorem le_valueOfDigits (start : ℕ) (ds : List Char) : start ≤ Decimal.valueOfDigits start ds := by
  induction ds generalizing start with
  | nil => exact le_rfl
  | cons c ds ih =>
    have := ih (10 * start + digitValue c)
    change start ≤ Decimal.valueOfDigits (10 * start + digitValue c) ds
    omega

/-- Digits that fit the significand are all taken. -/
theorem takeDigits_eq {ds : List Char} {start : ℕ} (taken : ℕ)
    (h : Decimal.valueOfDigits start ds ≤ significandLimit) :
    takeDigits start taken ds = (Decimal.valueOfDigits start ds, taken + ds.length, []) := by
  induction ds generalizing start taken with
  | nil => rfl
  | cons c ds ih =>
    have h : Decimal.valueOfDigits (10 * start + digitValue c) ds ≤ significandLimit := h
    have hnext := (le_valueOfDigits (10 * start + digitValue c) ds).trans h
    rw [takeDigits, if_neg (by omega), ih (taken + 1) h, List.length_cons, Nat.add_assoc,
      Nat.add_comm 1]
    rfl

/-- A number is written without zeros in front. -/
theorem digitsOf_head {n : ℕ} (hn : 0 < n) : (digitsOf n).head? ≠ some '0' := by
  induction n using Nat.strong_induction_on with
  | _ n ih =>
    rw [digitsOf, Nat.toDigits_eq_if (by decide)]
    split
    · rename_i hlt
      interval_cases n <;> decide
    · change (digitsOf (n / 10) ++ _).head? ≠ _
      rw [List.head?_append_of_ne_nil _ (digitsOf_ne_nil _)]
      exact ih _ (by omega) (by omega)

theorem whole?_digitsOf (n : ℕ) : whole? (digitsOf n) = some (digitsOf n, []) := by
  have hdigits : digits? (digitsOf n) = some (digitsOf n, []) := by
    have hend : ∀ c ∈ ([] : List Char).head?, c.isDigit = false := by simp
    have := digits?_append (digitsOf_ne_nil n) (fun _ => isDigit_of_mem_digitsOf) hend
    rwa [List.append_nil] at this
  unfold whole?
  rw [hdigits]
  split
  · rename_i heq
    have hzero : digitsOf n = '0' :: _ :: _ := (Prod.mk.inj (Option.some.inj heq)).1
    cases n.eq_zero_or_pos with
    | inl h =>
      subst h
      cases hzero
    | inr h => exact absurd (by rw [hzero]; rfl) (digitsOf_head h)
  · rfl

theorem number?_digitsOf (negative : Bool) {n : ℕ} (hn : n ≤ significandLimit) :
    number? negative (digitsOf n) =
      some (if !negative then some (.whole n)
        else if n = 0 ∨ pow2 63 < n then some (.real (-(Float.ofNat n)))
        else some (.whole (-(n : Int))), []) := by
  have htake : takeDigits 0 0 (digitsOf n) = (n, (digitsOf n).length, []) := by
    rw [takeDigits_eq _ (by rwa [valueOfDigits_digitsOf]), valueOfDigits_digitsOf, Nat.zero_add]
  rw [number?_eq, whole?_digitsOf, Option.bind_some]
  dsimp only [fraction?, power?, Option.bind_some]
  rw [Token.number]
  dsimp only
  rw [htake]
  rfl

end Whole

/-- A number is read back from its own text. -/
def Number.ReadsBack (n : Number) : Prop := parse? n.text = some (.number (some n))

deriving instance DecidableEq for Number

instance (n : Number) : Decidable n.ReadsBack :=
  decidable_of_iff
    ((match parse? n.text with
      | some (.number w) => w
      | _ => none) = some n) (by
    rw [Number.ReadsBack]
    split
    · simp_all
    · rename_i hnone
      simpa using fun h => hnone _ h)

theorem Number.readsBack_iff {n : Number} :
    n.ReadsBack ↔ ∃ r, signed? (skipBlanks n.text.toList) = some (some n, r) ∧ skipBlanks r = [] := by
  rw [ReadsBack, parse?]
  constructor
  · intro h
    split at h
    · rename_i v r hread
      split at h
      · rename_i hblank
        obtain rfl := Option.some.inj h
        exact ⟨r, value?_eq_number_iff.1 hread, by simpa using hblank⟩
      · cases h
    · cases h
  · rintro ⟨r, hread, hblank⟩
    rw [value?_eq_number_iff.2 hread]
    simp [hblank]

/-- Wherever a number stands that is read back from its own text, it is read. -/
theorem Number.ReadsBack.value? {n : Number} (h : n.ReadsBack) (fuel : ℕ) {rest : List Char}
    (hrest : Closed rest) :
    ∃ r, value? (fuel + 1) (n.text.toList ++ rest) = some (.number (some n), r) ∧
      skipBlanks r = skipBlanks rest := by
  obtain ⟨r, hread, hblank⟩ := Number.readsBack_iff.1 h
  have hne : skipBlanks n.text.toList ≠ [] := by
    intro hnil
    rw [hnil] at hread
    cases hread
  refine ⟨r ++ rest, ?_, skipBlanks_append_blank hblank⟩
  rw [value?_eq_number_iff, skipBlanks_append hne]
  exact local_signed? hrest hread

/-- Whole numbers of 64 bits are read back. -/
theorem Number.readsBack_whole {n : ℤ} (hlow : -2 ^ 63 ≤ n) (hhigh : n < 2 ^ 63) :
    (whole n).ReadsBack := by
  rw [Number.readsBack_iff]
  refine ⟨[], ?_, rfl⟩
  have hlimit : n.natAbs ≤ significandLimit := by
    change n.natAbs ≤ 2 ^ 64 - 1
    omega
  rw [text, Text.int]
  split
  · rename_i hneg
    have htext : ("-" ++ Text.nat n.natAbs).toList = '-' :: digitsOf n.natAbs := by
      simp [Text.nat, digitsOf]
    have hread := number?_digitsOf true hlimit
    rw [if_neg (by decide), if_neg (by change ¬(_ ∨ 2 ^ 63 < _); omega)] at hread
    rw [htext]
    change number? true (digitsOf n.natAbs) = _
    rw [hread]
    congr
    omega
  · rename_i hpos
    obtain ⟨c, ds, hds⟩ := List.exists_cons_of_ne_nil (digitsOf_ne_nil n.natAbs)
    have hc : c.isDigit = true := isDigit_of_mem_digitsOf (hds ▸ List.mem_cons_self)
    rw [Text.nat, String.toList_ofList]
    have hskip : skipBlanks (digitsOf n.natAbs) = digitsOf n.natAbs := by
      rw [hds, skipBlanks, List.dropWhile_cons_of_neg (by simp [not_isBlank_of_isDigit hc])]
    change signed? (skipBlanks (digitsOf n.natAbs)) = _
    rw [hskip, signed?_unsigned, number?_digitsOf false hlimit]
    · rw [if_pos (by decide)]
      congr
      omega
    · rw [hds]
      rintro d hd rfl
      obtain rfl := Option.some.inj hd
      cases hc

end ClauseTriage.Json
