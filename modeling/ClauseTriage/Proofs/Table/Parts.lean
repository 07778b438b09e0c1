import ClauseTriage.Proofs.Table.Rows
import ClauseTriage.Table.Load

/-!
# Parts of parts

Rows taken from some rows of a dataset are rows of the dataset. However a dataset came about, its
columns are as long as its labels and its labels are classes. So what is asked of its rows fails for
one reason only, a feature that is not there.
-/
namespace ClauseTriage

namespace Dataset

/-- The column has the name, and no column after it has. -/
def LastColumn (d : Dataset) (name : String) (column : Array Float) : Prop :=
  ∃ before after, d.names.zip d.columns = before ++ (name, column) :: after ∧
    ∀ c ∈ after, c.1 ≠ name

/-- What holds of every dataset: a name for each column, columns as long as the labels, labels that
are classes, and names that look up the last column that has them. -/
structure Regular (d : Dataset) : Prop where
  named : d.names.length = d.columns.length
  columns : ∀ column ∈ d.columns, column.size = d.size
  labels : ∀ label ∈ d.labels, label ≤ 1
  lookup : ∀ name column, d.column? name = some column ↔ d.LastColumn name column

/-- The ways to a dataset: from columns, from a table file, and as some rows of another one. -/
inductive Built : Dataset → Prop where
  | ofColumns {names : List String} {columns : List (List Float)} {labels : List Label}
      {d : Dataset} (h : ofColumns? names columns labels = .ok d) : Built d
  | ofBytes {path : String} {bytes : Table.Bytes} {label restart : String} {d : Dataset}
      (h : ofBytes? path bytes label restart = .ok d) : Built d
  | subset {d part : Dataset} {rows : List ℕ} (hd : Built d) (h : d.subset? rows = .ok part) :
      Built part

/-- Each point has, in the order of the features, the values that their columns have in its row. -/
def Reads (d : Dataset) (features : List String) (rows : List ℕ) (points : List (List Float)) :
    Prop :=
  List.Forall₂ (fun row point => List.Forall₂
    (fun name x => ∃ column, d.column? name = some column ∧ column[row]? = some x)
    features point) rows points

section Lookup

variable {d : Dataset} {name : String} {column : Array Float} {features : List String}

theorem column?_eq_some_iff : d.column? name = some column ↔ d.LastColumn name column := by
  simp only [column?, LastColumn, Option.map_eq_some_iff, Prod.exists,
    List.find?_eq_some_iff_append]
  constructor
  · rintro ⟨found, _, ⟨hname, after, before, hsplit, hafter⟩, rfl⟩
    obtain rfl : found = name := by simpa using hname
    refine ⟨before.reverse, after.reverse, ?_, fun c hc => ?_⟩
    · rw [← List.reverse_reverse (d.names.zip d.columns), hsplit]
      simp
    · simpa using hafter c (List.mem_reverse.1 hc)
  · rintro ⟨before, after, hsplit, hafter⟩
    refine ⟨name, column, ⟨by simp, after.reverse, before.reverse, ?_, fun c hc => ?_⟩, rfl⟩
    · rw [hsplit]
      simp
    · simpa using hafter c (List.mem_reverse.1 hc)

theorem regular_of_lengths (hnamed : d.names.length = d.columns.length)
    (hcolumns : ∀ column ∈ d.columns, column.size = d.size)
    (hlabels : ∀ label ∈ d.labels, label ≤ 1) : d.Regular :=
  ⟨hnamed, hcolumns, hlabels, fun _ _ => column?_eq_some_iff⟩

/-- A name that is there has a column. -/
theorem exists_column? (hnamed : d.names.length = d.columns.length) (h : name ∈ d.names) :
    ∃ column, d.column? name = some column := by
  obtain ⟨i, hi, rfl⟩ := List.getElem_of_mem h
  have hmem : (d.names[i], d.columns[i]) ∈ (d.names.zip d.columns).reverse :=
    List.mem_reverse.2 (List.mem_iff_getElem.2 ⟨i, by simp; omega, by simp⟩)
  rw [← Option.isSome_iff_exists, column?, Option.isSome_map, List.find?_isSome]
  exact ⟨_, hmem, by simp⟩

theorem columns?_eq_ok_iff {columns : List (Array Float)} : d.columns? features = .ok columns ↔
    List.Forall₂ (fun name column => d.column? name = some column) features columns := by
  rw [columns?, mapM_eq_ok_iff]
  refine iff_of_eq (congrArg (List.Forall₂ · features columns) ?_)
  funext name column
  cases d.column? name <;> simp

/-- The first feature that is not there is reported. -/
theorem columns?_of_missing (hnamed : d.names.length = d.columns.length)
    (h : features.find? (· ∉ d.names) = some name) :
    d.columns? features = .error (.unknownFeature name) := by
  obtain ⟨hmissing, before, after, rfl, hbefore⟩ := List.find?_eq_some_iff_append.1 h
  refine mapM_eq_error_iff.2 ⟨before, name, after, rfl, fun feature hfeature => ?_, ?_⟩
  · obtain ⟨column, hcolumn⟩ := exists_column? hnamed (by simpa using hbefore feature hfeature)
    exact ⟨column, by rw [hcolumn]⟩
  · cases hcolumn : d.column? name with
    | none => rfl
    | some column => simp [mem_names_of_column? hcolumn] at hmissing

theorem exists_columns? (hnamed : d.names.length = d.columns.length)
    (h : features.find? (· ∉ d.names) = none) : ∃ columns, d.columns? features = .ok columns := by
  refine exists_mapM_ok fun feature hfeature => ?_
  have hmem : feature ∈ d.names := by simpa using List.find?_eq_none.1 h feature hfeature
  obtain ⟨column, hcolumn⟩ := exists_column? hnamed hmem
  exact ⟨column, by rw [hcolumn]⟩

end Lookup

section Building

variable {names : List String} {columns : List (List Float)} {labels : List Label} {d : Dataset}

theorem find?_length_eq_none_iff {n : ℕ} :
    (columns.zipIdx.find? fun c => c.1.length != n) = none ↔
      ∀ column ∈ columns, column.length = n := by
  simp only [List.find?_eq_none, bne_iff_ne, ne_eq, not_not]
  constructor
  · intro h column hcolumn
    obtain ⟨i, hi⟩ := List.mem_iff_getElem?.1 hcolumn
    exact h (column, i) (List.mk_mem_zipIdx_iff_getElem?.2 hi)
  · exact fun h c hc => h c.1 (List.fst_mem_of_mem_zipIdx hc)

/-- There is a dataset of columns when they are named, as long as the labels, and the labels are
classes of at least one row. -/
theorem ofColumns?_eq_ok_iff : ofColumns? names columns labels = .ok d ↔
    names.length = columns.length ∧ labels ≠ [] ∧
      (∀ column ∈ columns, column.length = labels.length) ∧ (∀ label ∈ labels, label ≤ 1) ∧
      d = ⟨names, columns.map List.toArray, labels.toArray⟩ := by
  have hlabels : labels.find? (fun l => 1 < l) = none ↔ ∀ label ∈ labels, label ≤ 1 := by simp
  simp only [ofColumns?, refuse_eq_ok_iff, ← find?_length_eq_none_iff, ← hlabels, not_not]
  refine and_congr_right fun _ => and_congr (by simp) ?_
  split
  · rename_i hfound
    simp [hfound, throw, throwThe, MonadExceptOf.throw, bind, Except.bind]
  · rename_i hlengths
    rw [hlengths]
    split
    · rename_i hfound
      simp [hfound, throw, throwThe, MonadExceptOf.throw, bind, Except.bind]
    · rename_i hclasses
      simp [hclasses, pure, Except.pure, eq_comm]

/-- A table becomes a dataset by its columns. -/
theorem exists_ofColumns?_of_ofRecords? {header : List String} {records : List (List String)}
    {label restart : String} (h : ofRecords? header records label restart = .ok d) :
    ∃ names columns labels, ofColumns? names columns labels = .ok d := by
  simp only [ofRecords?, bind_eq_ok_iff, refuse_eq_ok_iff] at h
  obtain ⟨-, -, -, labels, -, features, -, h⟩ := h
  exact ⟨_, _, labels, h⟩

theorem regular_of_ofColumns? (h : ofColumns? names columns labels = .ok d) : d.Regular := by
  obtain ⟨hnamed, -, hcolumns, hlabels, rfl⟩ := ofColumns?_eq_ok_iff.1 h
  exact regular_of_lengths (by simpa using hnamed) (by simpa [size] using hcolumns)
    (by simpa using hlabels)

end Building

section Picks

variable {α : Type} {xs ys : Array α} {rows : List ℕ}

theorem exists_valueAt? {row : ℕ} (h : row < xs.size) : ∃ x, valueAt? xs row = .ok x :=
  ⟨xs[row], valueAt?_eq_ok.2 (Array.getElem?_eq_getElem h)⟩

theorem exists_picks (h : ∀ row ∈ rows, row < xs.size) : ∃ ys, Picks xs rows ys := by
  obtain ⟨ys, hys⟩ := exists_mapM_ok fun row hrow => exists_valueAt? (h row hrow)
  exact ⟨_, mapM_valueAt?_eq_ok.1 hys⟩

theorem Picks.mem (h : Picks xs rows ys) : ∀ y ∈ ys, y ∈ xs := by
  intro y hy
  obtain ⟨row, -, hrow⟩ := exists_left_of_forall₂ h y (Array.mem_toList_iff.2 hy)
  exact Array.mem_of_getElem? hrow

/-- What stands at a position among the picked entries stands in the array at the row of that
position. -/
theorem Picks.valueAt?_eq (h : Picks xs rows ys) (i : Fin rows.length) :
    valueAt? ys i = valueAt? xs (rows.get i) := by
  obtain ⟨y, hy, hrow⟩ := getElem?_of_forall₂ h (List.getElem?_eq_getElem i.isLt)
  rw [Array.getElem?_toList] at hy
  rw [valueAt?_eq_ok.2 hy, List.get_eq_getElem, valueAt?_eq_ok.2 hrow]

theorem Picks.mapM_valueAt?_eq (h : Picks xs rows ys) (positions : List (Fin rows.length)) :
    (positions.map Fin.val).mapM (valueAt? ys) = (positions.map rows.get).mapM (valueAt? xs) := by
  apply mapM_eq_of_forall₂
  rw [List.forall₂_map_left_iff, List.forall₂_map_right_iff, List.forall₂_same]
  exact fun i _ => h.valueAt?_eq i

end Picks

section Parts

variable {d part : Dataset} {rows : List ℕ}

/-- Taking some rows succeeds with the dataset of these rows. -/
theorem subset?_eq_ok_iff : d.subset? rows = .ok part ↔ d.HasRows rows part := by
  refine ⟨subset?_hasRows, fun h => ?_⟩
  simp only [subset?, labelsAt?, bind_eq_ok_iff, mapM_valueAt?_eq_ok, pure, Except.pure,
    Except.ok.injEq]
  refine ⟨part.labels.toList, h.labels, part.columns.map Array.toList, ?_, ?_⟩
  · rw [mapM_eq_ok_iff, List.forall₂_map_right_iff]
    exact h.columns.imp fun column entries hpicks => mapM_valueAt?_eq_ok.2 hpicks
  · simp [← h.names, Function.comp_def]

theorem Regular.exists_hasRows (hd : d.Regular) (h : ∀ row ∈ rows, row < d.size) :
    ∃ part, d.HasRows rows part := by
  obtain ⟨labels, hlabels⟩ := exists_picks h
  have hcolumns : ∀ column ∈ d.columns, ∃ entries, Picks column rows entries := fun column hmem =>
    exists_picks fun row hrow => (hd.columns column hmem).symm ▸ h row hrow
  choose! entries hentries using hcolumns
  refine ⟨⟨d.names, d.columns.map entries, labels⟩, rfl, hlabels, ?_⟩
  rw [List.forall₂_map_right_iff, List.forall₂_same]
  exact hentries

theorem Regular.size_of_column? (hd : d.Regular) {name : String} {column : Array Float}
    (h : d.column? name = some column) : column.size = d.size := by
  obtain ⟨before, after, hsplit, -⟩ := (hd.lookup name column).1 h
  have hmem : (name, column) ∈ d.names.zip d.columns := by simp [hsplit]
  exact hd.columns column (List.of_mem_zip hmem).2

theorem Regular.exists_labelsAt? (hd : d.Regular) (h : ∀ row ∈ rows, row < d.size) :
    ∃ labels, d.labelsAt? rows = .ok labels ∧ ∀ label ∈ labels, label ≤ 1 := by
  obtain ⟨labels, hlabels⟩ := exists_picks h
  exact ⟨labels.toList, mapM_valueAt?_eq_ok.2 hlabels,
    fun label hmem => hd.labels label (hlabels.mem label (Array.mem_toList_iff.1 hmem))⟩

theorem reads_of_rows? {features : List String} {points : List (List Float)}
    (h : d.rows? features rows = .ok points) : d.Reads features rows points := by
  simp only [rows?, bind_eq_ok_iff, columns?_eq_ok_iff, mapM_eq_ok_iff, valueAt?_eq_ok] at h
  obtain ⟨columns, hcolumns, hpoints⟩ := h
  exact hpoints.imp fun row point hpoint => forall₂_comp hcolumns hpoint

/-- Rows of features that are there have values. -/
theorem Regular.exists_rows? (hd : d.Regular) {features : List String}
    (hfeatures : features.find? (· ∉ d.names) = none) (h : ∀ row ∈ rows, row < d.size) :
    ∃ points, d.rows? features rows = .ok points := by
  obtain ⟨columns, hcolumns⟩ := exists_columns? hd.named hfeatures
  have hvalue : ∀ row ∈ rows, ∃ point, columns.mapM (valueAt? · row) = .ok point := by
    intro row hrow
    refine exists_mapM_ok fun column hcolumn => ?_
    obtain ⟨name, -, hname⟩ := exists_left_of_forall₂ (columns?_eq_ok_iff.1 hcolumns) column hcolumn
    apply exists_valueAt?
    rw [hd.size_of_column? hname]
    exact h row hrow
  rw [rows?, hcolumns]
  exact exists_mapM_ok hvalue

theorem HasRows.regular (h : d.HasRows rows part) (hd : d.Regular) : part.Regular := by
  refine regular_of_lengths ?_ (fun entries hentries => ?_) fun label hlabel => ?_
  · rw [h.names, hd.named, h.columns.length_eq]
  · obtain ⟨column, -, hpicks⟩ := exists_left_of_forall₂ h.columns entries hentries
    rw [h.size, hpicks.length_eq]
  · exact hd.labels label (h.labels.mem label hlabel)

/-- A feature that is found in the dataset is found in its part, with the picked entries. -/
theorem HasRows.column? (h : d.HasRows rows part) {name : String} {column : Array Float}
    (hcolumn : d.column? name = some column) :
    ∃ entries, part.column? name = some entries ∧ Picks column rows entries := by
  have hzip := List.forall₂_reverse_iff.2 (forall₂_zip d.names h.columns)
  obtain ⟨found, hfound, rfl⟩ := Option.map_eq_some_iff.1 hcolumn
  obtain ⟨entries, hentries, -, hpicks⟩ := find?_of_forall₂ hzip (fun _ _ h => by rw [h.1]) hfound
  refine ⟨entries.2, ?_, hpicks⟩
  rw [Dataset.column?, h.names, hentries]
  rfl

theorem HasRows.columns? (h : d.HasRows rows part) {features : List String}
    {columns : List (Array Float)} (hcolumns : d.columns? features = .ok columns) :
    ∃ entries, part.columns? features = .ok entries ∧
      List.Forall₂ (Picks · rows ·) columns entries := by
  simp only [columns?_eq_ok_iff] at hcolumns ⊢
  induction hcolumns with
  | nil => exact ⟨[], .nil, .nil⟩
  | cons hcolumn _ ih =>
    obtain ⟨first, hfirst, hpicks⟩ := h.column? hcolumn
    obtain ⟨rest, hrest, hall⟩ := ih
    exact ⟨first :: rest, .cons hfirst hrest, .cons hpicks hall⟩

section Composition

variable (h : d.HasRows rows part) (positions : List (Fin rows.length))
include h

theorem HasRows.labelsAt?_eq :
    part.labelsAt? (positions.map Fin.val) = d.labelsAt? (positions.map rows.get) :=
  h.labels.mapM_valueAt?_eq positions

theorem HasRows.subset?_eq :
    part.subset? (positions.map Fin.val) = d.subset? (positions.map rows.get) := by
  have hcolumns : part.columns.mapM (fun c => (positions.map Fin.val).mapM (valueAt? c)) =
      d.columns.mapM (fun c => (positions.map rows.get).mapM (valueAt? c)) := by
    refine (mapM_eq_of_forall₂ (h.columns.imp fun column entries hpicks => ?_)).symm
    exact (hpicks.mapM_valueAt?_eq positions).symm
  rw [subset?, subset?, h.labelsAt?_eq positions, hcolumns, h.names]

/-- The same features are found in the part, and their values agree row by row. -/
theorem HasRows.rows?_eq (hd : d.Regular) (features : List String) :
    part.rows? features (positions.map Fin.val) = d.rows? features (positions.map rows.get) := by
  cases hmissing : features.find? (· ∉ d.names) with
  | some name =>
    rw [rows?, rows?, columns?_of_missing hd.named hmissing,
      columns?_of_missing (h.regular hd).named (h.names ▸ hmissing)]
    rfl
  | none =>
    obtain ⟨columns, hcolumns⟩ := exists_columns? hd.named hmissing
    obtain ⟨entries, hentries, hpicks⟩ := h.columns? hcolumns
    rw [rows?, rows?, hcolumns, hentries]
    change (positions.map Fin.val).mapM _ = (positions.map rows.get).mapM _
    apply mapM_eq_of_forall₂
    rw [List.forall₂_map_left_iff, List.forall₂_map_right_iff, List.forall₂_same]
    intro i _
    exact (mapM_eq_of_forall₂ (hpicks.imp fun column entries h => (h.valueAt?_eq i).symm)).symm

end Composition

end Parts

/-- However a dataset came about, it is regular. -/
theorem Built.regular {d : Dataset} (h : d.Built) : d.Regular := by
  induction h with
  | ofColumns h => exact regular_of_ofColumns? h
  | @ofBytes path bytes label restart d h =>
    simp only [ofBytes?, bind_eq_ok_iff] at h
    obtain ⟨header, -, -, -, records, -, h⟩ := h
    obtain ⟨names, columns, labels, h⟩ := exists_ofColumns?_of_ofRecords? h
    exact regular_of_ofColumns? h
  | subset _ h ih => exact (subset?_eq_ok_iff.1 h).regular ih

/-- A dataset that came about in any way is regular, and so are its parts. Rows of a part are rows
of the dataset: taking rows of the part at some positions, their labels, and the values of any
features in them is the same as taking the rows of the dataset that stand at these positions. Rows
within the dataset can always be taken. Their values are those of the columns, except where a
feature is not there, and then the first that is not is reported. -/
theorem parts_of_parts (d : Dataset) (hd : d.Built) (rows : List ℕ)
    (hrows : ∀ row ∈ rows, row < d.size) (positions : List (Fin rows.length)) :
    d.Regular ∧ ∃ part inner labels,
      d.subset? rows = .ok part ∧ d.HasRows rows part ∧ part.Regular ∧
      part.subset? (positions.map Fin.val) = .ok inner ∧
      d.subset? (positions.map rows.get) = .ok inner ∧ inner.Regular ∧
      part.labelsAt? (positions.map Fin.val) = .ok labels ∧
      d.labelsAt? (positions.map rows.get) = .ok labels ∧ (∀ label ∈ labels, label ≤ 1) ∧
      ∀ features,
        part.rows? features (positions.map Fin.val) = d.rows? features (positions.map rows.get) ∧
        match features.find? (· ∉ d.names) with
        | some name => d.rows? features (positions.map rows.get) = .error (.unknownFeature name)
        | none => ∃ points, d.rows? features (positions.map rows.get) = .ok points ∧
            d.Reads features (positions.map rows.get) points := by
  have hregular := hd.regular
  have hinside : ∀ row ∈ positions.map rows.get, row < d.size := by
    intro row hrow
    obtain ⟨i, -, rfl⟩ := List.mem_map.1 hrow
    exact hrows _ (List.get_mem rows i)
  obtain ⟨part, hpart⟩ := hregular.exists_hasRows hrows
  obtain ⟨inner, hinner⟩ := hregular.exists_hasRows hinside
  obtain ⟨labels, hlabels, hclasses⟩ := hregular.exists_labelsAt? hinside
  refine ⟨hregular, part, inner, labels, subset?_eq_ok_iff.2 hpart, hpart, hpart.regular hregular,
    (hpart.subset?_eq positions).trans (subset?_eq_ok_iff.2 hinner), subset?_eq_ok_iff.2 hinner,
    hinner.regular hregular, (hpart.labelsAt?_eq positions).trans hlabels, hlabels, hclasses,
    fun features => ⟨hpart.rows?_eq positions hregular features, ?_⟩⟩
  split
  · rename_i name hmissing
    rw [rows?, columns?_of_missing hregular.named hmissing]
    rfl
  · rename_i hthere
    obtain ⟨points, hpoints⟩ := hregular.exists_rows? hthere hinside
    exact ⟨points, hpoints, reads_of_rows? hpoints⟩

/-- Two columns of one name, of which the last is looked up; a row taken twice, and in the part the
last row before the first. -/
theorem parts_of_parts_repeated :
    let d : Dataset := ⟨["A", "B", "A"],
      [#[1.0, 2.0, 3.0], #[10.0, 0.0 / 0.0, 30.0], #[5.0, 6.0, 7.0]], #[0, 1, 0]⟩
    ∃ part inner, d.subset? [2, 0, 2] = .ok part ∧ part.subset? [2, 1] = .ok inner ∧
      d.subset? [2, 0] = .ok inner ∧ inner.labels = #[0, 0] ∧
      inner.column? "A" = some #[7.0, 5.0] ∧
      part.rows? ["B", "C", "D"] [2, 1] = .error (.unknownFeature "C") := by
  intro d
  have hcolumns : ofColumns? ["A", "B", "A"]
      [[1.0, 2.0, 3.0], [10.0, 0.0 / 0.0, 30.0], [5.0, 6.0, 7.0]] [0, 1, 0] = .ok d := rfl
  obtain ⟨-, part, inner, labels, hpart, -, -, hinner, hdirect, -, -, -, -, hrows⟩ :=
    parts_of_parts d (.ofColumns hcolumns) [2, 0, 2] (by decide) [2, 1]
  have hinner' : d.subset? [2, 0] =
      .ok ⟨["A", "B", "A"], [#[3.0, 1.0], #[30.0, 10.0], #[7.0, 5.0]], #[0, 0]⟩ := rfl
  obtain rfl := Except.ok.inj (hdirect.symm.trans hinner')
  obtain ⟨hsame, hmissing⟩ := hrows ["B", "C", "D"]
  exact ⟨part, _, hpart, hinner, hdirect, rfl, rfl, hsame.trans hmissing⟩

end Dataset

end ClauseTriage
