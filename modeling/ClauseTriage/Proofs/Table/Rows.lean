import ClauseTriage.Proofs.Attempts
import ClauseTriage.Proofs.Random.Order
import ClauseTriage.Table.Split

/-!
# Rows of parts of a dataset

A sample holds distinct rows, and a split gives each of its rows to one side. A dataset of some rows
has at each position the row that stands there in the list.
-/
namespace ClauseTriage

open ClauseTriage.Random

namespace Dataset

theorem sample_nodup (d : Dataset) (fraction : Float) (seed : UInt64) :
    (d.sample fraction seed).Nodup :=
  ((shuffled_perm seed _).nodup_iff.2 List.nodup_range).sublist (List.take_sublist _ _)

theorem lt_size_of_mem_sample {d : Dataset} {fraction : Float} {seed : UInt64} {row : ℕ}
    (h : row ∈ d.sample fraction seed) : row < d.size :=
  List.mem_range.1 ((shuffled_perm seed _).subset (List.mem_of_mem_take h))

variable {α : Type}

/-- The second array has the entries of the first at some rows, in the order of the rows. -/
def Picks (xs : Array α) (rows : List ℕ) (ys : Array α) : Prop :=
  List.Forall₂ (fun row y => xs[row]? = some y) rows ys.toList

theorem Picks.length_eq {xs ys : Array α} {rows : List ℕ} (h : Picks xs rows ys) :
    rows.length = ys.size := List.Forall₂.length_eq h

@[simp] theorem valueAt?_eq_ok {xs : Array α} {row : ℕ} {x : α} :
    valueAt? xs row = .ok x ↔ xs[row]? = some x := by
  unfold valueAt?
  split <;> simp_all

theorem mapM_valueAt?_eq_ok {xs : Array α} {rows : List ℕ} {ys : List α} :
    rows.mapM (valueAt? xs) = .ok ys ↔ Picks xs rows ys.toArray := by
  simp only [mapM_eq_ok_iff, valueAt?_eq_ok, Picks]

/-- The second dataset consists of some rows of the first, in their order. -/
structure HasRows (d : Dataset) (rows : List ℕ) (data : Dataset) : Prop where
  names : data.names = d.names
  labels : Picks d.labels rows data.labels
  columns : List.Forall₂ (Picks · rows ·) d.columns data.columns

theorem HasRows.size {d data : Dataset} {rows : List ℕ} (h : d.HasRows rows data) :
    data.size = rows.length := h.labels.length_eq.symm

theorem subset?_hasRows {d data : Dataset} {rows : List ℕ} (h : d.subset? rows = .ok data) :
    d.HasRows rows data := by
  unfold subset? labelsAt? at h
  simp only [bind_eq_ok_iff, mapM_valueAt?_eq_ok, pure, Except.pure, Except.ok.injEq] at h
  obtain ⟨labels, hlabels, columns, hcolumns, rfl⟩ := h
  rw [mapM_eq_ok_iff] at hcolumns
  refine ⟨rfl, hlabels, List.forall₂_map_right_iff.2 (hcolumns.imp fun column entries h => ?_)⟩
  exact mapM_valueAt?_eq_ok.1 h

/-- A column that is found has one of the names. -/
theorem mem_names_of_column? {d : Dataset} {name : String} {column : Array Float}
    (h : d.column? name = some column) : name ∈ d.names := by
  obtain ⟨found, hfound, -⟩ := Option.map_eq_some_iff.1 h
  have hname : found.1 = name := by simpa using List.find?_some hfound
  have hmem := List.mem_reverse.1 (List.mem_of_find?_eq_some hfound)
  rw [← hname]
  exact (List.of_mem_zip hmem).1

/-- Values are given only for features that are columns. -/
theorem subset_names_of_rows? {d : Dataset} {features : List String} {rows : List ℕ}
    {points : List (List Float)} (h : d.rows? features rows = .ok points) :
    features ⊆ d.names := by
  unfold rows? columns? at h
  simp only [bind_eq_ok_iff, mapM_eq_ok_iff] at h
  obtain ⟨columns, hcolumns, -⟩ := h
  intro name hname
  obtain ⟨column, -, hcolumn⟩ := exists_right_of_forall₂ hcolumns name hname
  split at hcolumn
  · rename_i hfound
    exact mem_names_of_column? hfound
  · cases hcolumn

/-- There is one list of values for each row. -/
theorem rows?_length {d : Dataset} {features : List String} {rows : List ℕ}
    {points : List (List Float)} (h : d.rows? features rows = .ok points) :
    points.length = rows.length := by
  unfold rows? at h
  simp only [bind_eq_ok_iff, mapM_eq_ok_iff] at h
  obtain ⟨columns, -, hpoints⟩ := h
  exact hpoints.length_eq.symm

/-- Every list of values has one for each feature. -/
theorem length_of_mem_rows? {d : Dataset} {features : List String} {rows : List ℕ}
    {points : List (List Float)} (h : d.rows? features rows = .ok points) :
    ∀ point ∈ points, point.length = features.length := by
  unfold rows? columns? at h
  simp only [bind_eq_ok_iff, mapM_eq_ok_iff] at h
  obtain ⟨columns, hcolumns, hpoints⟩ := h
  intro point hpoint
  obtain ⟨row, -, hvalues⟩ := exists_left_of_forall₂ hpoints point hpoint
  rw [hcolumns.length_eq, hvalues.length_eq]

end Dataset

namespace Split

/-- The sides of a split are its rows in another order. -/
theorem ofRows_perm (rows : List ℕ) (testFraction : Float) (seed : UInt64) :
    ((ofRows rows testFraction seed).train ++ (ofRows rows testFraction seed).test).Perm rows := by
  refine List.perm_append_comm.trans ?_
  simp only [ofRows, List.take_append_drop]
  exact shuffled_perm seed rows

end Split

end ClauseTriage
