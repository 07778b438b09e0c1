import ClauseTriage.Proofs.Attempts
import ClauseTriage.Table.Load

/-!
# What the fields of a table stand for

A field stands for at most one number, also in the restart column. Labels that are zeros and ones
are classes as they are; of two other texts the least is class 0, wherever it stands.
-/
namespace ClauseTriage

namespace Dataset

/-- The number that a field stands for in a column: the number that it writes, in the restart column
also that of the strategy that it names, and elsewhere what is not a number for an empty field. -/
def StandsFor (restart name field : String) (x : Float) : Prop :=
  Decimal.read? field = some x ∨
    if name = restart then (field, x) ∈ restartCodes else field = "" ∧ x = 0.0 / 0.0

section Fields

variable {restart name field : String} {x : Float}

/-- The names of strategies write no numbers. -/
theorem read?_of_mem_restartCodes : ∀ r ∈ restartCodes, Decimal.read? r.1 = none := by decide

theorem eq_of_mem_restartCodes {r : String × Float} (hr : r ∈ restartCodes)
    (hx : (r.1, x) ∈ restartCodes) : r.2 = x := by
  simp only [restartCodes, List.mem_cons, List.not_mem_nil, or_false] at hr
  rcases hr with rfl | rfl | rfl <;> simpa [restartCodes, eq_comm] using hx

theorem restart?_eq_some_iff : restart? field = some x ↔ StandsFor restart restart field x := by
  rw [restart?, StandsFor, if_pos rfl]
  split
  · rename_i r hfound
    obtain rfl : r.1 = field := by simpa using List.find?_some hfound
    have hr := List.mem_of_find?_eq_some hfound
    rw [read?_of_mem_restartCodes r hr, Option.some.injEq, or_iff_right (by simp)]
    exact ⟨fun h => h ▸ hr, eq_of_mem_restartCodes hr⟩
  · rename_i hnone
    have hnotMem : (field, x) ∉ restartCodes := fun hmem => by
      simpa using List.find?_eq_none.1 hnone _ hmem
    exact (or_iff_left hnotMem).symm

theorem numeric?_eq_some_iff (h : name ≠ restart) :
    numeric? field = some x ↔ StandsFor restart name field x := by
  have hempty : Decimal.read? "" = none := by decide
  rw [numeric?, StandsFor, if_neg h]
  by_cases hfield : field = ""
  · rw [hfield, hempty, if_pos (by decide : "".isEmpty = true), Option.some.injEq]
    simp [eq_comm]
  · simp [hfield]

/-- Fields of a column that is kept. -/
theorem mapM_numeric?_eq_some_iff (h : name ≠ restart) {fields : List String} {xs : List Float} :
    fields.mapM numeric? = some xs ↔ List.Forall₂ (StandsFor restart name) fields xs := by
  simp only [mapM_eq_some_iff, numeric?_eq_some_iff h]

/-- A field stands for one number only. -/
theorem StandsFor.unique {y : Float} (hx : StandsFor restart name field x)
    (hy : StandsFor restart name field y) : x = y := by
  by_cases hname : name = restart
  · subst hname
    exact Option.some.inj ((restart?_eq_some_iff.2 hx).symm.trans (restart?_eq_some_iff.2 hy))
  · exact Option.some.inj (((numeric?_eq_some_iff hname).2 hx).symm.trans
      ((numeric?_eq_some_iff hname).2 hy))

theorem restartColumn?_eq (fields : List String) : restartColumn? fields =
    fields.zipIdx.mapM fun c => (restart? c.1).elim (.error (.unknownRestart c.2 c.1)) .ok := by
  rw [restartColumn?]
  congr 1
  funext ⟨field, row⟩
  dsimp only
  cases restart? field <;> rfl

theorem restartColumn?_eq_ok_iff (restart : String) {fields : List String} {xs : List Float} :
    restartColumn? fields = .ok xs ↔ List.Forall₂ (StandsFor restart restart) fields xs := by
  simp only [restartColumn?_eq, mapM_eq_ok_iff, elim_eq_ok_iff, @restart?_eq_some_iff restart]
  rw [← List.forall₂_map_left_iff (f := Prod.fst) (R := StandsFor restart restart),
    List.zipIdx_map_fst]

end Fields

section Labels

/-- A field that writes zero or one. -/
def IsBit (field : String) : Prop := ∃ x, Decimal.read? field = some x ∧ (x == 0.0 ∨ x == 1.0)

/-- Labels that are two classes: zeros and ones, or no more than two texts. -/
def TwoClasses (fields : List String) : Prop :=
  (∀ f ∈ fields, IsBit f) ∨ fields.toFinset.card ≤ 2

/-- The class of a label field among all of them: zeros and ones are classes as they are, and
otherwise the least text is class 0. -/
def IsClass (fields : List String) (field : String) (l : Label) : Prop :=
  l ≤ 1 ∧
    ((∀ f ∈ fields, IsBit f) → (l = 0 ↔ ∃ x, Decimal.read? field = some x ∧ x == 0.0)) ∧
    (¬(∀ f ∈ fields, IsBit f) → (l = 0 ↔ ∀ f ∈ fields, field ≤ f))

variable {fields : List String} {field : String} {l : Label}

theorem numericLabel?_eq_some_iff : numericLabel? field = some l ↔
    IsBit field ∧ l ≤ 1 ∧ (l = 0 ↔ ∃ x, Decimal.read? field = some x ∧ x == 0.0) := by
  have hzero : ∀ n : ℕ, 0 = n ↔ n ≤ 1 ∧ n = 0 := by omega
  have hone : ∀ n : ℕ, 1 = n ↔ n ≤ 1 ∧ ¬n = 0 := by omega
  unfold numericLabel? IsBit
  cases Decimal.read? field with
  | none => simp
  | some x =>
    by_cases h0 : x == 0.0
    · simpa [h0] using hzero l
    · by_cases h1 : x == 1.0
      · simpa [h0, h1] using hone l
      · simp [h0, h1]

theorem exists_numericLabel?_iff : (∃ l, numericLabel? field = some l) ↔ IsBit field := by
  simp only [numericLabel?_eq_some_iff]
  refine ⟨fun ⟨l, h, _⟩ => h, fun h => ?_⟩
  by_cases hzero : ∃ x, Decimal.read? field = some x ∧ x == 0.0
  · exact ⟨0, h, by simp, iff_of_true rfl hzero⟩
  · exact ⟨1, h, le_rfl, iff_of_false Nat.one_ne_zero hzero⟩

instance : Decidable (IsBit field) :=
  decidable_of_iff ((numericLabel? field).isSome = true) <| by
    rw [Option.isSome_iff_exists, exists_numericLabel?_iff]

instance : Decidable (TwoClasses fields) :=
  inferInstanceAs (Decidable ((∀ f ∈ fields, IsBit f) ∨ _))

theorem nodup_eraseDups (fields : List String) : fields.eraseDups.Nodup := by
  match fields with
  | [] => exact List.nodup_nil
  | f :: rest =>
    have : (rest.filter fun g => !g == f).length < rest.length + 1 :=
      Nat.lt_succ_of_le (List.length_filter_le _ rest)
    rw [List.eraseDups_cons, List.nodup_cons]
    exact ⟨by simp [List.mem_eraseDups], nodup_eraseDups (rest.filter fun g => !g == f)⟩
termination_by fields.length

theorem length_eraseDups (fields : List String) :
    fields.eraseDups.length = fields.toFinset.card := by
  rw [← List.toFinset_card_of_nodup (nodup_eraseDups fields)]
  congr 1
  ext f
  simp [List.mem_eraseDups]

/-- Of at most two texts, the larger one is the one that is not the least. -/
theorem larger_iff_not_least {texts : List String} (hnodup : texts.Nodup)
    (hlength : texts.length ≤ 2) (hfield : field ∈ texts) :
    (texts.length = 2 ∧ ∀ t ∈ texts, t ≤ field) ↔ ¬∀ t ∈ texts, field ≤ t := by
  match texts, hlength with
  | [], _ => cases hfield
  | [a], _ =>
    obtain rfl := List.mem_singleton.1 hfield
    simp
  | [a, b], _ =>
    have hne : a ≠ b := by simpa using hnodup
    simp only [List.mem_cons, List.not_mem_nil, or_false] at hfield
    simp only [List.forall_mem_cons, List.length_cons, List.length_nil, List.not_mem_nil,
      false_imp_iff, implies_true, and_true, true_and, not_and_or]
    rcases hfield with rfl | rfl
    · simp only [le_refl, true_and, not_true, false_or, not_le]
      exact ⟨fun h => lt_of_le_of_ne h hne.symm, le_of_lt⟩
    · simp only [le_refl, and_true, not_true, or_false, not_le]
      exact ⟨fun h => lt_of_le_of_ne h hne, le_of_lt⟩

theorem exists_mapM_numericLabel?_iff :
    (∃ labels, fields.mapM numericLabel? = some labels) ↔ ∀ f ∈ fields, IsBit f := by
  simp only [← exists_numericLabel?_iff]
  refine ⟨fun ⟨labels, h⟩ => exists_of_mapM_eq_some h, fun h => ?_⟩
  choose! l hl using h
  exact ⟨_, mapM_eq_some_map hl⟩

theorem labels?_of_bits {labels : List Label} (h : fields.mapM numericLabel? = some labels) :
    labels? fields = .ok labels := by
  rw [labels?, h]

/-- The labels where not all fields are zeros and ones. -/
theorem labels?_of_texts (h : ¬∀ f ∈ fields, IsBit f) : labels? fields =
    if 2 < fields.toFinset.card then .error (.notBinary fields.toFinset.card)
    else .ok (fields.map fun f => if ∀ g ∈ fields, f ≤ g then 0 else 1) := by
  have hnone : fields.mapM numericLabel? = none := by
    rw [← exists_mapM_numericLabel?_iff, not_exists] at h
    exact Option.eq_none_iff_forall_ne_some.2 h
  rw [labels?, hnone, ← length_eraseDups]
  dsimp only
  split
  · rfl
  · rename_i htwo
    congr 1
    refine List.map_congr_left fun f hf => ?_
    have hiff := larger_iff_not_least (nodup_eraseDups fields) (not_lt.1 htwo)
      (List.mem_eraseDups.2 hf)
    simp only [List.mem_eraseDups] at hiff
    rw [← ite_not]
    simp only [List.all_eq_true, decide_eq_true_eq, List.mem_eraseDups, hiff, not_not]

/-- A field has one class only, and it depends on which fields there are, not on their order. -/
theorem IsClass.unique {fields' : List String} {l' : Label} (hmem : ∀ f, f ∈ fields' ↔ f ∈ fields)
    (h : IsClass fields field l) (h' : IsClass fields' field l') : l = l' := by
  have hiff : l = 0 ↔ l' = 0 := by
    by_cases hbits : ∀ f ∈ fields, IsBit f
    · rw [h.2.1 hbits, h'.2.1 (by simpa only [hmem] using hbits)]
    · rw [h.2.2 hbits, h'.2.2 (by simpa only [hmem] using hbits)]
      simp only [hmem]
  rcases Nat.le_one_iff_eq_zero_or_eq_one.1 h.1 with rfl | rfl
  · exact (hiff.1 rfl).symm
  · rcases Nat.le_one_iff_eq_zero_or_eq_one.1 h'.1 with rfl | rfl
    · exact hiff.2 rfl
    · rfl

theorem labels?_eq_error_iff {e : DatasetError} : labels? fields = .error e ↔
    ¬TwoClasses fields ∧ e = .notBinary fields.toFinset.card := by
  by_cases hbits : ∀ f ∈ fields, IsBit f
  · obtain ⟨labels, hlabels⟩ := exists_mapM_numericLabel?_iff.2 hbits
    rw [labels?_of_bits hlabels]
    exact iff_of_false nofun fun h => h.1 (.inl hbits)
  · rw [labels?_of_texts hbits, TwoClasses, or_iff_right hbits, not_le]
    split
    · rename_i hmany
      simp [hmany, eq_comm]
    · rename_i htwo
      simp [htwo]

theorem exists_labels? (h : TwoClasses fields) : ∃ labels, labels? fields = .ok labels :=
  exists_ok_iff.2 fun _ he => (labels?_eq_error_iff.1 he).1 h

theorem classes_of_labels? {labels : List Label} (h : labels? fields = .ok labels) :
    List.Forall₂ (IsClass fields) fields labels := by
  by_cases hbits : ∀ f ∈ fields, IsBit f
  · obtain ⟨bits, hlabels⟩ := exists_mapM_numericLabel?_iff.2 hbits
    obtain rfl := Except.ok.inj ((labels?_of_bits hlabels).symm.trans h)
    refine (mapM_eq_some_iff.1 hlabels).imp fun f l hl => ?_
    obtain ⟨-, hle, hzero⟩ := numericLabel?_eq_some_iff.1 hl
    exact ⟨hle, fun _ => hzero, fun hnot => absurd hbits hnot⟩
  · rw [labels?_of_texts hbits] at h
    split at h
    · cases h
    · obtain rfl := Except.ok.inj h
      rw [List.forall₂_map_right_iff, List.forall₂_same]
      intro f _
      refine ⟨?_, fun hall => absurd hall hbits, fun _ => ?_⟩
      · split
        · exact Nat.zero_le 1
        · exact le_rfl
      · split <;> simp_all

end Labels

end Dataset

end ClauseTriage
