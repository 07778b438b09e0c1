import ClauseTriage.Proofs.Table.Fields
import ClauseTriage.Proofs.Table.Parts

/-!
# What a table becomes

The label column is looked up first, then there has to be a record, then the labels have to be two
classes, and at last every restart strategy has to be known. Nothing else is refused: the columns
that are kept have a name each and a number for every record.
-/
namespace ClauseTriage

namespace Dataset

section Columns

/-- The field stands for a number in a column of the name. -/
def Legible (restart name field : String) : Prop := ∃ x, StandsFor restart name field x

/-- The columns other than the first label column, with their positions. -/
def beside (header : List String) (label : String) : List (String × ℕ) :=
  header.zipIdx.filter fun c => c.2 != header.idxOf label

/-- The column becomes a feature: it is a restart column, or each of its fields stands for a
number. -/
def Kept (records : List (List String)) (restart : String) (c : String × ℕ) : Prop :=
  c.1 = restart ∨ ∀ field ∈ fieldsAt records c.2, Legible restart c.1 field

/-- The first field that stands for no number, in the first restart column that has one. -/
def FirstUnknown (header : List String) (records : List (List String)) (label restart : String)
    (row : ℕ) (value : String) : Prop :=
  ∃ before column after, beside header label = before ++ (restart, column) :: after ∧
    (∀ i, (restart, i) ∈ before → ∀ field ∈ fieldsAt records i, Legible restart restart field) ∧
    ∃ earlier later, fieldsAt records column = earlier ++ value :: later ∧ earlier.length = row ∧
      (∀ field ∈ earlier, Legible restart restart field) ∧ ¬Legible restart restart value

variable {header : List String} {records : List (List String)} {label restart name field : String}
  {fields : List String} {e : DatasetError}

instance : Decidable (Legible restart name field) :=
  decidable_of_iff ((if name = restart then restart? field else numeric? field).isSome = true) <| by
    rw [Option.isSome_iff_exists, Legible]
    split
    · rename_i hname
      subst hname
      exact exists_congr fun x => restart?_eq_some_iff
    · rename_i hname
      exact exists_congr fun x => numeric?_eq_some_iff hname

instance (records : List (List String)) (restart : String) (c : String × ℕ) :
    Decidable (Kept records restart c) :=
  inferInstanceAs (Decidable (_ ∨ ∀ field ∈ fieldsAt records c.2, Legible restart c.1 field))

theorem exists_standsFor_iff :
    (∃ xs, List.Forall₂ (StandsFor restart name) fields xs) ↔
      ∀ field ∈ fields, Legible restart name field := by
  refine ⟨fun ⟨xs, h⟩ field hfield => ?_, fun h => ?_⟩
  · obtain ⟨x, -, hx⟩ := exists_right_of_forall₂ h field hfield
    exact ⟨x, hx⟩
  · choose! x hx using h
    exact ⟨fields.map x, List.forall₂_map_right_iff.2 (List.forall₂_same.2 hx)⟩

theorem restartColumn?_eq_error_iff (restart : String) : restartColumn? fields = .error e ↔
    ∃ earlier value later, e = .unknownRestart earlier.length value ∧
      fields = earlier ++ value :: later ∧ (∀ field ∈ earlier, Legible restart restart field) ∧
      ¬Legible restart restart value := by
  have hlegible : ∀ field, (∃ x, restart? field = some x) ↔ Legible restart restart field :=
    fun _ => exists_congr fun _ => restart?_eq_some_iff
  have hillegible : ∀ field, restart? field = none ↔ ¬Legible restart restart field := by
    intro field
    rw [← hlegible, ← Option.ne_none_iff_exists', not_not]
  simp only [restartColumn?_eq, mapM_eq_error_iff, elim_eq_ok_iff, elim_eq_error_iff, hlegible,
    hillegible]
  constructor
  · rintro ⟨before, ⟨value, row⟩, after, hsplit, hbefore, hvalue, rfl⟩
    obtain ⟨earlier, rest, rfl, rfl, hrest⟩ := List.zipIdx_eq_append_iff.1 hsplit
    obtain ⟨head, later, rfl, hhead, -⟩ := List.zipIdx_eq_cons_iff.1 hrest.symm
    obtain ⟨rfl, rfl⟩ := Prod.mk.inj hhead
    refine ⟨earlier, value, later, by rw [Nat.zero_add], rfl, fun field hfield => ?_, hvalue⟩
    obtain ⟨i, hi⟩ := List.mem_iff_getElem?.1 hfield
    exact hbefore (field, i) (List.mk_mem_zipIdx_iff_getElem?.2 hi)
  · rintro ⟨earlier, value, later, rfl, rfl, hearlier, hvalue⟩
    refine ⟨earlier.zipIdx, (value, earlier.length), later.zipIdx (earlier.length + 1), ?_, ?_,
      hvalue, rfl⟩
    · rw [List.zipIdx_append, List.zipIdx_cons, Nat.zero_add]
    · exact fun c hc => hearlier c.1 (List.fst_mem_of_mem_zipIdx hc)

/-- A column becomes a feature or is passed over. -/
theorem feature?_eq_ok_iff {z : Option (String × List Float)} :
    feature? restart name fields = .ok z ↔
      match z with
      | some c => c.1 = name ∧ List.Forall₂ (StandsFor restart name) fields c.2
      | none => name ≠ restart ∧ ¬∀ field ∈ fields, Legible restart name field := by
  rw [feature?]
  by_cases hname : name = restart
  · subst hname
    rw [if_pos rfl, map_eq_ok_iff]
    simp only [restartColumn?_eq_ok_iff name]
    cases z with
    | none => simp
    | some c =>
      constructor
      · rintro ⟨xs, hxs, hc⟩
        obtain rfl := Option.some.inj hc
        exact ⟨rfl, hxs⟩
      · rintro ⟨rfl, hxs⟩
        exact ⟨c.2, hxs, rfl⟩
  · rw [if_neg hname, Except.ok.injEq]
    simp only [← exists_standsFor_iff, ← mapM_numeric?_eq_some_iff hname]
    cases z with
    | none => simp [hname, Option.eq_none_iff_forall_ne_some]
    | some c =>
      obtain ⟨n, xs⟩ := c
      simp [eq_comm, and_comm]

theorem exists_feature?_iff : (∃ z, feature? restart name fields = .ok z) ↔
    (name = restart → ∀ field ∈ fields, Legible restart name field) := by
  simp only [feature?_eq_ok_iff, Option.exists, Prod.exists, exists_and_right, exists_and_left,
    exists_standsFor_iff]
  tauto

theorem feature?_eq_error_iff : feature? restart name fields = .error e ↔
    name = restart ∧ restartColumn? fields = .error e := by
  rw [feature?]
  by_cases hname : name = restart
  · simp [hname, map_eq_error_iff]
  · simp [hname]

/-- What the columns beside the labels become. -/
theorem kept_of_features? {columns : List (String × ℕ)}
    {features : List (Option (String × List Float))}
    (h : List.Forall₂ (fun c z => feature? restart c.1 (fieldsAt records c.2) = .ok z) columns
      features) :
    List.Forall₂
      (fun c k => k.1 = c.1 ∧ List.Forall₂ (StandsFor restart c.1) (fieldsAt records c.2) k.2)
      (columns.filter fun c => Kept records restart c) (features.filterMap id) := by
  induction h with
  | nil => exact .nil
  | @cons c z columns features hz _ ih =>
    rw [feature?_eq_ok_iff] at hz
    cases z with
    | none =>
      have hkept : ¬Kept records restart c := not_or.2 hz
      rwa [List.filter_cons_of_neg (by simpa using hkept), List.filterMap_cons_none rfl]
    | some k =>
      have hkept : Kept records restart c := .inr (exists_standsFor_iff.1 ⟨k.2, hz.2⟩)
      rw [List.filter_cons_of_pos (by simpa using hkept), List.filterMap_cons_some (f := id) rfl]
      exact .cons hz ih

/-- A column that cannot be read is a restart column. -/
theorem mapM_feature?_eq_error_iff :
    ((beside header label).mapM fun c => feature? restart c.1 (fieldsAt records c.2)) = .error e ↔
      ∃ row value, e = .unknownRestart row value ∧
        FirstUnknown header records label restart row value := by
  simp only [mapM_eq_error_iff, exists_feature?_iff, feature?_eq_error_iff,
    restartColumn?_eq_error_iff restart, FirstUnknown]
  constructor
  · rintro ⟨before, ⟨name, column⟩, after, hsplit, hbefore, rfl, earlier, value, later, rfl,
      hfields, hearlier, hvalue⟩
    exact ⟨earlier.length, value, rfl, before, column, after, hsplit,
      fun i hi => hbefore (name, i) hi rfl, earlier, later, hfields, rfl, hearlier, hvalue⟩
  · rintro ⟨row, value, rfl, before, column, after, hsplit, hbefore, earlier, later, hfields, rfl,
      hearlier, hvalue⟩
    refine ⟨before, (restart, column), after, hsplit, ?_, rfl, earlier, value, later, rfl, hfields,
      hearlier, hvalue⟩
    rintro ⟨name, i⟩ hi rfl
    exact hbefore i hi

theorem exists_mapM_feature?_iff :
    (∃ features, ((beside header label).mapM fun c =>
        feature? restart c.1 (fieldsAt records c.2)) = .ok features) ↔
      ∀ row value, ¬FirstUnknown header records label restart row value := by
  simp only [exists_ok_iff, ne_eq, mapM_feature?_eq_error_iff]
  constructor
  · exact fun h row value hfirst => h _ ⟨row, value, rfl, hfirst⟩
  · rintro h e ⟨row, value, -, hfirst⟩
    exact h row value hfirst

/-- No field is unknown when each field of a restart column stands for a number. -/
theorem forall_not_firstUnknown_iff :
    (∀ row value, ¬FirstUnknown header records label restart row value) ↔
      ∀ c ∈ beside header label, c.1 = restart →
        ∀ field ∈ fieldsAt records c.2, Legible restart c.1 field := by
  simp only [← exists_mapM_feature?_iff, ← exists_feature?_iff]
  constructor
  · rintro ⟨features, hfeatures⟩ c hc
    obtain ⟨z, -, hz⟩ := exists_right_of_forall₂ (mapM_eq_ok_iff.1 hfeatures) c hc
    exact ⟨z, hz⟩
  · exact exists_mapM_ok

end Columns

section Records

/-- Why there is no dataset of a header and records. -/
inductive Refused (header : List String) (records : List (List String)) (label restart : String) :
    DatasetError → Prop
  | missingColumn (hlabel : label ∉ header) :
    Refused header records label restart (.missingColumn label)
  | empty (hlabel : label ∈ header) (hrecords : records = []) :
    Refused header records label restart .empty
  | notBinary (hlabel : label ∈ header) (hrecords : records ≠ [])
    (hbits : ¬∀ f ∈ fieldsAt records (header.idxOf label), IsBit f)
    (hmany : 2 < (fieldsAt records (header.idxOf label)).toFinset.card) :
    Refused header records label restart
      (.notBinary (fieldsAt records (header.idxOf label)).toFinset.card)
  | unknownRestart (hlabel : label ∈ header) (hrecords : records ≠ [])
    (htwo : TwoClasses (fieldsAt records (header.idxOf label))) {row : ℕ} {value : String}
    (hfirst : FirstUnknown header records label restart row value) :
    Refused header records label restart (.unknownRestart row value)

/-- What is read of records: the columns that are kept, in the order of the header, each with the
number of every record's field in it, and the classes of the labels. -/
structure Loaded (header : List String) (records : List (List String)) (label restart : String)
    (d : Dataset) : Prop where
  names : d.names = ((beside header label).filter fun c => Kept records restart c).map Prod.fst
  columns : List.Forall₂
    (fun c column => List.Forall₂
      (fun record x => ∃ field, record[c.2]? = some field ∧ StandsFor restart c.1 field x) records
      column.toList)
    ((beside header label).filter fun c => Kept records restart c) d.columns
  labels : List.Forall₂
    (fun record l => ∃ field, record[header.idxOf label]? = some field ∧
      IsClass (fieldsAt records (header.idxOf label)) field l) records d.labels.toList

variable {header : List String} {records : List (List String)} {label restart : String}

theorem labelPosition?_of_mem (h : label ∈ header) :
    labelPosition? header label = .ok (header.idxOf label) := by
  obtain ⟨i, hi⟩ := Option.isSome_iff_exists.1 (List.isSome_idxOf?.2 h)
  rw [labelPosition?, List.idxOf_eq_getD_idxOf?, hi]
  rfl

theorem labelPosition?_of_not_mem (h : label ∉ header) :
    labelPosition? header label = .error (.missingColumn label) := by
  rw [labelPosition?, List.idxOf?_eq_none_iff.2 h]

theorem snd_lt_of_mem_beside {c : String × ℕ} (h : c ∈ beside header label) :
    c.2 < header.length :=
  List.snd_lt_of_mem_zipIdx (List.mem_of_mem_filter h)

/-- Past the first two questions, the labels are read, then the columns. -/
theorem ofRecords?_of_mem (hlabel : label ∈ header) (hrecords : records ≠ []) :
    ofRecords? header records label restart =
      labels? (fieldsAt records (header.idxOf label)) >>= fun labels =>
        ((beside header label).mapM fun c => feature? restart c.1 (fieldsAt records c.2)) >>=
          fun features => ofColumns? ((features.filterMap id).map (·.1))
            ((features.filterMap id).map (·.2)) labels := by
  rw [ofRecords?, labelPosition?_of_mem hlabel]
  simp [bind, Except.bind, hrecords, beside]

/-- Fields of a column that all records have. -/
theorem forall₂_fieldsAt_iff {α : Type} {R : String → α → Prop} {i : ℕ} {xs : List α}
    (h : ∀ record ∈ records, i < record.length) :
    List.Forall₂ R (fieldsAt records i) xs ↔
      List.Forall₂ (fun record x => ∃ field, record[i]? = some field ∧ R field x) records xs := by
  rw [fieldsAt, List.forall₂_map_left_iff, List.forall₂_iff_get, List.forall₂_iff_get]
  refine and_congr_right fun _ => forall₂_congr fun j hj => forall_congr' fun _ => ?_
  rw [List.getD_eq_getElem _ _ (h _ (List.get_mem records ⟨j, hj⟩)),
    List.getElem?_eq_getElem (h _ (List.get_mem records ⟨j, hj⟩))]
  simp

/-- The columns that are read make a dataset: each is as long as the labels, and there is one. -/
theorem exists_ofColumns? {labels : List Label} {columns : List (String × ℕ)}
    {features : List (Option (String × List Float))} {i : ℕ} (hrecords : records ≠ [])
    (hlabels : labels? (fieldsAt records i) = .ok labels)
    (hfeatures : columns.mapM (fun c => feature? restart c.1 (fieldsAt records c.2)) =
      .ok features) :
    ∃ d, ofColumns? ((features.filterMap id).map (·.1)) ((features.filterMap id).map (·.2)) labels =
      .ok d := by
  have hclasses := classes_of_labels? hlabels
  have hlength : labels.length = records.length := by simp [← hclasses.length_eq, fieldsAt]
  have hkept := kept_of_features? (mapM_eq_ok_iff.1 hfeatures)
  refine ⟨_, ofColumns?_eq_ok_iff.2 ⟨by simp, ?_, ?_, fun l hl => ?_, rfl⟩⟩
  · rwa [← List.length_pos_iff, hlength, List.length_pos_iff]
  · rw [List.forall_mem_map]
    intro k hk
    obtain ⟨c, -, -, hx⟩ := exists_left_of_forall₂ hkept k hk
    rw [hlength, ← hx.length_eq, fieldsAt, List.length_map]
  · obtain ⟨field, -, hfield⟩ := exists_left_of_forall₂ hclasses l hl
    exact hfield.1

theorem Refused.eq_error {e : DatasetError} (h : Refused header records label restart e) :
    ofRecords? header records label restart = .error e := by
  cases h with
  | missingColumn hlabel =>
    rw [ofRecords?, labelPosition?_of_not_mem hlabel]
    rfl
  | empty hlabel hrecords =>
    rw [ofRecords?, labelPosition?_of_mem hlabel, hrecords]
    rfl
  | notBinary hlabel hrecords hbits hmany =>
    have hnot := not_or.2 ⟨hbits, not_le.2 hmany⟩
    rw [ofRecords?_of_mem hlabel hrecords, labels?_eq_error_iff.2 ⟨hnot, rfl⟩]
    rfl
  | unknownRestart hlabel hrecords htwo hfirst =>
    obtain ⟨labels, hlabels⟩ := exists_labels? htwo
    have hfeatures := mapM_feature?_eq_error_iff.2 ⟨_, _, rfl, hfirst⟩
    rw [ofRecords?_of_mem hlabel hrecords]
    exact bind_eq_error_iff.2 (.inr ⟨labels, hlabels, bind_eq_error_iff.2 (.inl hfeatures)⟩)

theorem exists_ofRecords? (hlabel : label ∈ header) (hrecords : records ≠ [])
    (htwo : TwoClasses (fieldsAt records (header.idxOf label)))
    (hknown : ∀ row value, ¬FirstUnknown header records label restart row value) :
    ∃ d, ofRecords? header records label restart = .ok d := by
  obtain ⟨labels, hlabels⟩ := exists_labels? htwo
  obtain ⟨features, hfeatures⟩ := exists_mapM_feature?_iff.2 hknown
  obtain ⟨d, hd⟩ := exists_ofColumns? hrecords hlabels hfeatures
  rw [ofRecords?_of_mem hlabel hrecords]
  exact ⟨d, bind_eq_ok_iff.2 ⟨labels, hlabels, bind_eq_ok_iff.2 ⟨features, hfeatures, hd⟩⟩⟩

/-- The questions that are asked of a table leave nothing open. -/
theorem refused_or_accepted (header : List String) (records : List (List String))
    (label restart : String) :
    (∃ e, Refused header records label restart e) ∨
      label ∈ header ∧ records ≠ [] ∧ TwoClasses (fieldsAt records (header.idxOf label)) ∧
        ∀ row value, ¬FirstUnknown header records label restart row value := by
  by_cases hlabel : label ∈ header
  · by_cases hrecords : records = []
    · exact .inl ⟨_, .empty hlabel hrecords⟩
    · by_cases htwo : TwoClasses (fieldsAt records (header.idxOf label))
      · by_cases hknown : ∀ row value, ¬FirstUnknown header records label restart row value
        · exact .inr ⟨hlabel, hrecords, htwo, hknown⟩
        · push Not at hknown
          obtain ⟨row, value, hfirst⟩ := hknown
          exact .inl ⟨_, .unknownRestart hlabel hrecords htwo hfirst⟩
      · obtain ⟨hbits, hmany⟩ := not_or.1 htwo
        exact .inl ⟨_, .notBinary hlabel hrecords hbits (not_le.1 hmany)⟩
  · exact .inl ⟨_, .missingColumn hlabel⟩

theorem ofRecords?_eq_error_iff {e : DatasetError} :
    ofRecords? header records label restart = .error e ↔
      Refused header records label restart e := by
  refine ⟨fun h => ?_, Refused.eq_error⟩
  rcases refused_or_accepted header records label restart with
    ⟨e', he'⟩ | ⟨hlabel, hrecords, htwo, hknown⟩
  · rwa [Except.error.inj (h.symm.trans he'.eq_error)]
  · obtain ⟨d, hd⟩ := exists_ofRecords? hlabel hrecords htwo hknown
    cases h.symm.trans hd

theorem exists_ofRecords?_iff : (∃ d, ofRecords? header records label restart = .ok d) ↔
    label ∈ header ∧ records ≠ [] ∧ TwoClasses (fieldsAt records (header.idxOf label)) ∧
      ∀ row value, ¬FirstUnknown header records label restart row value := by
  constructor
  · rintro ⟨d, hd⟩
    refine (refused_or_accepted header records label restart).resolve_left ?_
    rintro ⟨e, he⟩
    cases hd.symm.trans he.eq_error
  · rintro ⟨hlabel, hrecords, htwo, hknown⟩
    exact exists_ofRecords? hlabel hrecords htwo hknown

theorem loaded_of_ofRecords? {d : Dataset} (h : ∀ record ∈ records, record.length = header.length)
    (hd : ofRecords? header records label restart = .ok d) :
    Loaded header records label restart d := by
  obtain ⟨hlabel, hrecords, -⟩ := exists_ofRecords?_iff.1 ⟨d, hd⟩
  rw [ofRecords?_of_mem hlabel hrecords] at hd
  simp only [bind_eq_ok_iff, ofColumns?_eq_ok_iff] at hd
  obtain ⟨labels, hlabels, features, hfeatures, -, -, -, -, rfl⟩ := hd
  have hkept := kept_of_features? (mapM_eq_ok_iff.1 hfeatures)
  refine ⟨?_, ?_, ?_⟩
  · change List.map _ _ = _
    rw [← List.forall₂_eq_eq_eq, List.forall₂_map_left_iff, List.forall₂_map_right_iff]
    exact hkept.flip.imp fun k c hk => hk.1
  · change List.Forall₂ _ _ (List.map _ (List.map _ _))
    rw [List.forall₂_map_right_iff, List.forall₂_map_right_iff]
    have hinside : ∀ c ∈ (beside header label).filter fun c => Kept records restart c,
        ∀ record ∈ records, c.2 < record.length := fun c hc record hrecord =>
      h record hrecord ▸ snd_lt_of_mem_beside (List.mem_of_mem_filter hc)
    exact ((List.forall₂_and_left _ _).2 ⟨hinside, hkept⟩).imp fun c k hk =>
      (forall₂_fieldsAt_iff hk.1).1 hk.2.2
  · refine (forall₂_fieldsAt_iff fun record hrecord => ?_).1 (classes_of_labels? hlabels)
    rw [h record hrecord]
    exact List.idxOf_lt_length_of_mem hlabel

end Records

section Files

/-- A file holds a header and records of its length, all in text and without white space at the ends
of the fields. -/
structure Yields (bytes : Table.Bytes) (header : List String) (records : List (List String)) :
    Prop where
  head : ((Table.records bytes).headD []).mapM Table.fieldText? = some header
  tail : List.Forall₂
    (fun fields record => fields.length = header.length ∧
      fields.mapM Table.fieldText? = some record)
    (Table.records bytes).tail records

variable {bytes : Table.Bytes} {header : List String} {records : List (List String)}

theorem record?_eq_ok_iff {expected : ℕ} {fields : List Table.Bytes} {record : List String} :
    record? expected fields = .ok record ↔
      fields.length = expected ∧ fields.mapM Table.fieldText? = some record := by
  rw [record?]
  split
  · rename_i h
    simp [h]
  · rename_i h
    rw [not_not.1 h]
    cases fields.mapM Table.fieldText? <;> simp

theorem length_of_mapM_fieldText? {fields : List Table.Bytes} {record : List String}
    (h : fields.mapM Table.fieldText? = some record) : fields.length = record.length :=
  (mapM_eq_some_iff.1 h).length_eq

theorem length_of_record? {expected : ℕ} {fields : List Table.Bytes} {record : List String}
    (h : record? expected fields = .ok record) : record.length = expected := by
  obtain ⟨hlength, htexts⟩ := record?_eq_ok_iff.1 h
  rw [← hlength, length_of_mapM_fieldText? htexts]

theorem Yields.length_eq (h : Yields bytes header records) :
    ∀ record ∈ records, record.length = header.length := by
  intro record hrecord
  obtain ⟨fields, -, hlength, htexts⟩ := exists_left_of_forall₂ h.tail record hrecord
  rw [← hlength, length_of_mapM_fieldText? htexts]

/-- Nothing else than the header and the records of a file is looked at. -/
theorem Yields.ofBytes?_eq (h : Yields bytes header records) (path label restart : String) :
    ofBytes? path bytes label restart = ofRecords? header records label restart := by
  have hheader := record?_eq_ok_iff.2 ⟨rfl, h.head⟩
  have hrecords : (Table.records bytes).tail.mapM
      (record? ((Table.records bytes).headD []).length) = .ok records := by
    rw [mapM_eq_ok_iff, length_of_mapM_fieldText? h.head]
    exact h.tail.imp fun _ _ hrecord => record?_eq_ok_iff.2 hrecord
  rw [ofBytes?]
  simp only [hheader, hrecords, Except.mapError, bind, Except.bind]
  cases hposition : labelPosition? header label with
  | error e => rw [ofRecords?, hposition]; rfl
  | ok i => rfl

end Files

/-- What becomes of a file with records of the header's length. The label column has to be there,
then a record, then the labels have to be of two classes, and then every field of a restart column
has to be known; the first of these that fails is the error, and the shapes of what is read always
fit. The dataset has the columns of numbers in the order of the header, each with the numbers of its
own fields record by record, and the class of every record. -/
theorem ofBytes?_outcome (path label restart : String) (bytes : Table.Bytes)
    (header : List String) (records : List (List String)) (h : Yields bytes header records) :
    (∀ e, ofBytes? path bytes label restart = .error e ↔
      Refused header records label restart e) ∧
    ((∃ d, ofBytes? path bytes label restart = .ok d) ↔
      label ∈ header ∧ records ≠ [] ∧ TwoClasses (fieldsAt records (header.idxOf label)) ∧
        ∀ row value, ¬FirstUnknown header records label restart row value) ∧
    ∀ d, ofBytes? path bytes label restart = .ok d → Loaded header records label restart d := by
  rw [h.ofBytes?_eq path label restart]
  exact ⟨fun _ => ofRecords?_eq_error_iff, exists_ofRecords?_iff,
    fun _ => loaded_of_ofRecords? h.length_eq⟩

/-- A table of two records. The column of texts is passed over, and two columns of one name are
kept; but a column of texts is not a restart column. -/
theorem ofBytes?_outcome_two_records :
    let bytes := "name,Label,A,B,A\nx,keep, 1.5,luby,2\ny,discard,,7,-3e1\n".toUTF8.data.toList
    ofBytes? "t.csv" bytes "Keep" "B" = .error (.missingColumn "Keep") ∧
      ofBytes? "t.csv" bytes "Label" "name" = .error (.unknownRestart 0 "x") ∧
      ∃ d, ofBytes? "t.csv" bytes "Label" "B" = .ok d ∧ d.names = ["A", "B", "A"] ∧
        d.labels = #[1, 0] := by
  intro bytes
  have h : Yields bytes ["name", "Label", "A", "B", "A"]
      [["x", "keep", "1.5", "luby", "2"], ["y", "discard", "", "7", "-3e1"]] := by
    exact ⟨by decide, by decide⟩
  refine ⟨?_, ?_, ?_⟩
  · exact ((ofBytes?_outcome "t.csv" "Keep" "B" _ _ _ h).1 _).2 (.missingColumn (by decide))
  · refine ((ofBytes?_outcome "t.csv" "Label" "name" _ _ _ h).1 _).2
      (.unknownRestart (by decide) (by decide) (by decide) ?_)
    exact ⟨[], 0, _, rfl, by simp, [], ["y"], rfl, rfl, by simp, by decide⟩
  · obtain ⟨-, hok, hloaded⟩ := ofBytes?_outcome "t.csv" "Label" "B" _ _ _ h
    obtain ⟨d, hd⟩ := hok.2 ⟨by decide, by decide, by decide,
      forall_not_firstUnknown_iff.2 (by decide)⟩
    refine ⟨d, hd, (hloaded d hd).names.trans (by decide), ?_⟩
    obtain ⟨names, columns, ⟨labels⟩⟩ := d
    obtain _ | ⟨⟨_, hkeep, hone⟩, _ | ⟨⟨_, hdiscard, hzero⟩, _ | _⟩⟩ := (hloaded _ hd).labels
    obtain rfl := Option.some.inj hkeep
    obtain rfl := Option.some.inj hdiscard
    rw [(hzero.2.2 (by decide)).2 (by decide)]
    have hnot := mt (hone.2.2 (by decide)).1 (by decide)
    rw [le_antisymm hone.1 (Nat.pos_of_ne_zero hnot)]

end Dataset

end ClauseTriage
