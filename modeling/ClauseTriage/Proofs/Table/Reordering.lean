import ClauseTriage.Proofs.Table.Loading

/-!
# Records in another order

Which columns are kept, what a field stands for and which class a label has are questions about the
fields that there are, not about their order. So the dataset of a table with its records in another
order has the same columns, with their rows in that order.
-/
namespace ClauseTriage

/-- Errors of one kind; the row of an unknown restart strategy and its name may differ. -/
inductive DatasetError.SameKind : DatasetError → DatasetError → Prop
  | refl (e : DatasetError) : SameKind e e
  | unknownRestart (row row' : ℕ) (value value' : String) :
    SameKind (.unknownRestart row value) (.unknownRestart row' value')

/-- The second list has the entries of the first, in some order of their positions. -/
structure Reordered {α : Type} (order : List ℕ) (xs ys : List α) : Prop where
  mem_iff : ∀ x, x ∈ ys ↔ x ∈ xs
  entries : List.Forall₂ (fun i y => xs[i]? = some y) order ys

section Lists

variable {α β : Type} {order : List ℕ} {xs ys : List α}

theorem reordered_ofFn (xs : List α) (σ : Equiv.Perm (Fin xs.length)) :
    Reordered (List.ofFn fun i => (σ i : ℕ)) xs (List.ofFn fun i => xs.get (σ i)) := by
  refine ⟨fun x => ?_, ?_⟩
  · exact (σ.ofFn_comp_perm xs.get).mem_iff.trans (by rw [List.ofFn_get])
  · rw [List.forall₂_iff_get]
    simp

/-- What the entries are related to stands in the same order. -/
theorem Reordered.forall₂ (h : Reordered order xs ys) {R S : α → β → Prop} {us vs : List β}
    (hunique : ∀ x u v, R x u → S x v → u = v) (hus : List.Forall₂ R xs us)
    (hvs : List.Forall₂ S ys vs) : List.Forall₂ (fun i v => us[i]? = some v) order vs := by
  refine (forall₂_comp h.entries hvs).imp ?_
  rintro i v ⟨x, hx, hv⟩
  obtain ⟨u, hu, hxu⟩ := getElem?_of_forall₂ hus hx
  rw [hu, hunique x u v hxu hv]

theorem exists_mapM_of_subset {ε : Type} (h : ys ⊆ xs) {f : α → Except ε β} {us : List β}
    (hus : xs.mapM f = .ok us) : ∃ vs, ys.mapM f = .ok vs := by
  refine exists_mapM_ok fun y hy => ?_
  obtain ⟨u, -, hu⟩ := exists_right_of_forall₂ (mapM_eq_ok_iff.1 hus) y (h hy)
  exact ⟨u, hu⟩

theorem Reordered.mapM {ε : Type} (h : Reordered order xs ys) {f : α → Except ε β} {us : List β}
    (hus : xs.mapM f = .ok us) : ∃ vs, ys.mapM f = .ok vs ∧ Reordered order us vs := by
  obtain ⟨vs, hvs⟩ := exists_mapM_of_subset (fun y => (h.mem_iff y).1) hus
  rw [mapM_eq_ok_iff] at hus
  refine ⟨vs, hvs, fun v => ⟨fun hv => ?_, fun hv => ?_⟩, ?_⟩
  · obtain ⟨y, hy, hyv⟩ := exists_left_of_forall₂ (mapM_eq_ok_iff.1 hvs) v hv
    obtain ⟨u, hu, hyu⟩ := exists_right_of_forall₂ hus y ((h.mem_iff y).1 hy)
    rwa [Except.ok.inj (hyv.symm.trans hyu)]
  · obtain ⟨x, hx, hxv⟩ := exists_left_of_forall₂ hus v hv
    obtain ⟨u, hu, hxu⟩ := exists_right_of_forall₂ (mapM_eq_ok_iff.1 hvs) x ((h.mem_iff x).2 hx)
    rwa [Except.ok.inj (hxv.symm.trans hxu)]
  · exact h.forall₂ (fun _ _ _ hu hv => Except.ok.inj (hu.symm.trans hv)) hus (mapM_eq_ok_iff.1 hvs)

end Lists

namespace Dataset

section Records

variable {header : List String} {records records' : List (List String)} {label restart : String}

section SameRecords

variable (h : ∀ record, record ∈ records' ↔ record ∈ records)
include h

theorem mem_fieldsAt_iff (i : ℕ) (field : String) :
    field ∈ fieldsAt records' i ↔ field ∈ fieldsAt records i := by
  simp only [fieldsAt, List.mem_map, h]

theorem kept_iff (c : String × ℕ) : Kept records' restart c ↔ Kept records restart c := by
  simp only [Kept, mem_fieldsAt_iff h]

theorem toFinset_fieldsAt (i : ℕ) :
    (fieldsAt records' i).toFinset = (fieldsAt records i).toFinset := by
  ext field
  rw [List.mem_toFinset, List.mem_toFinset, mem_fieldsAt_iff h]

theorem twoClasses_iff (i : ℕ) :
    TwoClasses (fieldsAt records' i) ↔ TwoClasses (fieldsAt records i) := by
  simp only [TwoClasses, mem_fieldsAt_iff h, toFinset_fieldsAt h]

/-- Whether some field is unknown is a question about the fields that there are; which is the first
is not. -/
theorem exists_firstUnknown {row : ℕ} {value : String}
    (hfirst : FirstUnknown header records label restart row value) :
    ∃ row' value', FirstUnknown header records' label restart row' value' := by
  by_contra hnone
  push Not at hnone
  simp only [forall_not_firstUnknown_iff, mem_fieldsAt_iff h] at hnone
  rw [← forall_not_firstUnknown_iff] at hnone
  exact hnone row value hfirst

/-- Whether there is a dataset is a question about the records that there are. -/
theorem Refused.of_mem_iff {e : DatasetError} (he : Refused header records label restart e) :
    ∃ e', Refused header records' label restart e' ∧ e.SameKind e' := by
  have hempty : records' = [] ↔ records = [] := by
    simp only [List.eq_nil_iff_forall_not_mem, h]
  cases he with
  | missingColumn hlabel => exact ⟨_, .missingColumn hlabel, .refl _⟩
  | empty hlabel hrecords => exact ⟨_, .empty hlabel (hempty.2 hrecords), .refl _⟩
  | notBinary hlabel hrecords hbits hmany =>
    rw [← toFinset_fieldsAt h] at hmany ⊢
    refine ⟨_, .notBinary hlabel (mt hempty.1 hrecords) ?_ hmany, .refl _⟩
    simpa only [mem_fieldsAt_iff h] using hbits
  | unknownRestart hlabel hrecords htwo hfirst =>
    obtain ⟨row', value', hfirst'⟩ := exists_firstUnknown h hfirst
    exact ⟨_, .unknownRestart hlabel (mt hempty.1 hrecords) ((twoClasses_iff h _).2 htwo) hfirst',
      .unknownRestart _ _ _ _⟩

end SameRecords

variable {order : List ℕ}

/-- What is read off a column of reordered records stands in the order of the records. -/
theorem picks_of_reordered {α : Type} (h : Reordered order records records') {i : ℕ}
    {R S : String → α → Prop} {us vs : Array α}
    (hunique : ∀ field u v, R field u → S field v → u = v)
    (hus : List.Forall₂ (fun record u => ∃ field, record[i]? = some field ∧ R field u) records
      us.toList)
    (hvs : List.Forall₂ (fun record v => ∃ field, record[i]? = some field ∧ S field v) records'
      vs.toList) :
    Picks us order vs := by
  refine (h.forall₂ ?_ hus hvs).imp fun row v hv => by rwa [← Array.getElem?_toList]
  rintro record u v ⟨field, hfield, hu⟩ ⟨field', hfield', hv⟩
  obtain rfl := Option.some.inj (hfield.symm.trans hfield')
  exact hunique field u v hu hv

/-- Datasets of the same records have the same columns, with the rows in the records' order. -/
theorem Loaded.hasRows (h : Reordered order records records') {d d' : Dataset}
    (hd : Loaded header records label restart d) (hd' : Loaded header records' label restart d') :
    d.HasRows order d' := by
  have hkept : ((beside header label).filter fun c => Kept records' restart c) =
      (beside header label).filter fun c => Kept records restart c := by
    simp only [kept_iff h.mem_iff]
  obtain ⟨hnames, hcolumns, hlabels⟩ := hd
  obtain ⟨hnames', hcolumns', hlabels'⟩ := hd'
  rw [hkept] at hnames' hcolumns'
  refine ⟨hnames'.trans hnames.symm, ?_, ?_⟩
  · exact picks_of_reordered h
      (fun _ _ _ hl hl' => hl.unique (mem_fieldsAt_iff h.mem_iff _) hl') hlabels hlabels'
  · refine (forall₂_comp hcolumns.flip hcolumns').imp ?_
    rintro column column' ⟨c, hcolumn, hcolumn'⟩
    exact picks_of_reordered h (fun _ _ _ hx hx' => hx.unique hx') hcolumn hcolumn'

end Records

/-- Both are errors of one kind, or both are datasets and the second has the rows of the first in
some order. -/
def SameOutcome (order : List ℕ) : Except DatasetError Dataset → Except DatasetError Dataset → Prop
  | .ok d, .ok d' => d'.names = d.names ∧ d.subset? order = .ok d'
  | .error e, .error e' => e.SameKind e'
  | _, _ => False

section Outcomes

variable {header : List String} {records records' : List (List String)} {label restart : String}
  {order : List ℕ}

theorem ofRecords?_reordered (h : Reordered order records records')
    (hlength : ∀ record ∈ records, record.length = header.length) :
    SameOutcome order (ofRecords? header records label restart)
      (ofRecords? header records' label restart) := by
  cases hfirst : ofRecords? header records label restart with
  | error e =>
    obtain ⟨e', he', hkind⟩ := Refused.of_mem_iff h.mem_iff (ofRecords?_eq_error_iff.1 hfirst)
    rw [ofRecords?_eq_error_iff.2 he']
    exact hkind
  | ok d =>
    cases hsecond : ofRecords? header records' label restart with
    | error e' =>
      obtain ⟨e, he, -⟩ := Refused.of_mem_iff (fun record => (h.mem_iff record).symm)
        (ofRecords?_eq_error_iff.1 hsecond)
      cases hfirst.symm.trans (ofRecords?_eq_error_iff.2 he)
    | ok d' =>
      have hlength' : ∀ record ∈ records', record.length = header.length := fun record hrecord =>
        hlength record ((h.mem_iff record).1 hrecord)
      have hrows := (loaded_of_ofRecords? hlength hfirst).hasRows h
        (loaded_of_ofRecords? hlength' hsecond)
      exact ⟨hrows.names, subset?_eq_ok_iff.2 hrows⟩

/-- A file is read up to its first fault; where all records have as many fields as the header, the
fault is a field that is not text. -/
theorem mapM_record?_eq_error {n : ℕ} {all : List (List Table.Bytes)} {cause : ReadError}
    (h : all.mapM (record? n) = .error cause) (hlength : ∀ fields ∈ all, fields.length = n) :
    cause = .notText := by
  obtain ⟨before, fields, after, rfl, -, hfields⟩ := mapM_eq_error_iff.1 h
  rw [record?, if_neg (not_not.2 (hlength fields (by simp)))] at hfields
  split at hfields
  · cases hfields
  · exact (Except.error.inj hfields).symm

end Outcomes

/-- A file with the records of another in some other order, under the same header, has the same
outcome: the same error but for the row and the value of an unknown restart strategy, or a dataset
of the same columns with the rows in the other order. Only when not all records have as many fields
as the header may the two errors of reading differ. -/
theorem ofBytes?_reordered (path label restart : String) (bytes reordered : Table.Bytes)
    (σ : Equiv.Perm (Fin (Table.records bytes).tail.length))
    (hhead : (Table.records reordered).head? = (Table.records bytes).head?)
    (htail : (Table.records reordered).tail =
      List.ofFn fun i => (Table.records bytes).tail.get (σ i)) :
    SameOutcome (List.ofFn fun i => (σ i : ℕ)) (ofBytes? path bytes label restart)
        (ofBytes? path reordered label restart) ∨
      (∃ fields ∈ (Table.records bytes).tail,
        fields.length ≠ ((Table.records bytes).headD []).length) ∧
      ∃ cause cause', ofBytes? path bytes label restart = .error (.read path cause) ∧
        ofBytes? path reordered label restart = .error (.read path cause') := by
  have horder := reordered_ofFn (Table.records bytes).tail σ
  rw [← htail] at horder
  rw [ofBytes?, ofBytes?, List.headD_eq_head?_getD, List.headD_eq_head?_getD, hhead]
  cases hheader : record? ((Table.records bytes).head?.getD []).length
      ((Table.records bytes).head?.getD []) with
  | error cause => exact .inl (.refl _)
  | ok header =>
    cases hlabel : labelPosition? header label with
    | error e =>
      simp only [Except.mapError, bind, Except.bind, hlabel]
      exact .inl (.refl e)
    | ok position =>
      simp only [Except.mapError, bind, Except.bind, hlabel]
      cases hrecords : (Table.records bytes).tail.mapM
          (record? ((Table.records bytes).head?.getD []).length) with
      | ok records =>
        obtain ⟨records', hrecords', hreordered⟩ := horder.mapM hrecords
        rw [hrecords']
        refine .inl (ofRecords?_reordered hreordered fun record hrecord => ?_)
        obtain ⟨fields, -, hfields⟩ := exists_left_of_forall₂ (mapM_eq_ok_iff.1 hrecords) _ hrecord
        rw [length_of_record? hfields, length_of_record? hheader]
      | error cause =>
        cases hrecords' : (Table.records reordered).tail.mapM
            (record? ((Table.records bytes).head?.getD []).length) with
        | ok records' =>
          obtain ⟨records, hok⟩ := exists_mapM_of_subset (fun y => (horder.mem_iff y).2) hrecords'
          cases hok.symm.trans hrecords
        | error cause' =>
          by_cases hlength : ∀ fields ∈ (Table.records bytes).tail,
              fields.length = ((Table.records bytes).head?.getD []).length
          · left
            rw [mapM_record?_eq_error hrecords hlength, mapM_record?_eq_error hrecords'
              fun fields hfields => hlength fields ((horder.mem_iff fields).1 hfields)]
            exact .refl _
          · push Not at hlength
            exact .inr ⟨hlength, cause, cause', rfl, rfl⟩

/-- Three records, of which the last comes first in the other file and the class that the others
have not is in the middle of one and at the end of the other. -/
theorem ofBytes?_reordered_three :
    let bytes := "A,Label\n1,x\n2,y\n,x\n".toUTF8.data.toList
    let reordered := "A,Label\n,x\n1,x\n2,y\n".toUTF8.data.toList
    ∃ d d', ofBytes? "t.csv" bytes "Label" "R" = .ok d ∧
      ofBytes? "t.csv" reordered "Label" "R" = .ok d' ∧ d'.names = d.names ∧
      d.subset? [2, 0, 1] = .ok d' := by
  intro bytes reordered
  have h : Yields bytes ["A", "Label"] [["1", "x"], ["2", "y"], ["", "x"]] :=
    ⟨by decide, by decide⟩
  have hloads : ∃ d, ofBytes? "t.csv" bytes "Label" "R" = .ok d := by
    rw [h.ofBytes?_eq, exists_ofRecords?_iff, forall_not_firstUnknown_iff]
    decide
  obtain ⟨d, hd⟩ := hloads
  have hsame := ofBytes?_reordered "t.csv" "Label" "R" bytes reordered (finRotate 3).symm
    (by decide) (by decide)
  rw [hd] at hsame
  rcases hsame with hsame | ⟨-, cause, cause', hcause, -⟩
  · cases hd' : ofBytes? "t.csv" reordered "Label" "R" with
    | error e => rw [hd'] at hsame; exact hsame.elim
    | ok d' =>
      rw [hd'] at hsame
      exact ⟨d, d', hd, rfl, hsame.1, hsame.2⟩
  · cases hcause

end Dataset

end ClauseTriage
