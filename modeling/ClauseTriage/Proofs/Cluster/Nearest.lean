import ClauseTriage.Proofs.Cluster.Labels
import ClauseTriage.Proofs.Double.Places

/-!
# The nearest center

The distances of a point are compared in the order of the centers, each with the least one so far. So
a point belongs to the first center at the least distance, as long as that is below the largest
finite number. A distance that is not a number is never the least one, and hides no other.
-/
namespace ClauseTriage

open Scalar

variable {α : Type} [Scalar α]

/-- What a scan of distances ends with: the least one that can win, and its position. -/
def scan (distances : List α) : Option (ℕ × α) := distances.zipIdx.foldl nearer none

/-- A distance that can win, at its first position: no number is below it, and those at earlier
positions are above it. -/
structure NearestAt (distances : List α) (i : ℕ) (d : α) : Prop where
  found : distances[i]? = some d
  below : belowLargest d = true
  least : ∀ (j : ℕ) (e : α), distances[j]? = some e → isNaN e = false → le d e = true
  first : ∀ (j : ℕ) (e : α), j < i → distances[j]? = some e → isNaN e = false → lt d e = true

section Scan

variable {distances : List α} {i j : ℕ} {d e x : α}

theorem leastIndex?_eq_scan (distances : List α) :
    leastIndex? distances = (scan distances).map Prod.fst := rfl

theorem scan_concat (distances : List α) (x : α) :
    scan (distances ++ [x]) = nearer (scan distances) (x, distances.length) := by
  simp [scan, List.zipIdx_append]

/-- The scan ends without a distance only where none can win. -/
theorem not_belowLargest_of_scan (h : scan distances = none) :
    ∀ d ∈ distances, ¬belowLargest d = true := by
  induction distances using List.reverseRecOn with
  | nil => exact fun d hd => absurd hd List.not_mem_nil
  | append_singleton distances x ih =>
    rw [scan_concat] at h
    cases hscan : scan distances with
    | none =>
      rw [hscan, nearer] at h
      intro d hd
      rcases List.mem_append.1 hd with hd | hd
      · exact ih hscan d hd
      · rw [List.mem_singleton.1 hd]
        intro hx
        simp [hx] at h
    | some best =>
      rw [hscan, nearer] at h
      split at h <;> cases h

theorem NearestAt.lt_length (h : NearestAt distances i d) : i < distances.length :=
  (List.getElem?_eq_some_iff.1 h.found).1

theorem NearestAt.mem (h : NearestAt distances i d) : d ∈ distances :=
  List.mem_of_getElem? h.found

variable [Placed α] [Capped α]

/-- No other distance is the first of the least ones at a later position. -/
theorem NearestAt.not_before (h : NearestAt distances i d) (h' : NearestAt distances j e) : ¬i < j := by
  intro hlt
  have hbelow := h'.first i d hlt h.found (Capped.isNaN_of_belowLargest h.below)
  have hleast := h.least j e h'.found (Capped.isNaN_of_belowLargest h'.below)
  have := Placed.lt_of_lt_of_le hbelow hleast
  rw [Placed.lt_irrefl] at this
  cases this

theorem NearestAt.unique (h : NearestAt distances i d) (h' : NearestAt distances j e) : i = j :=
  le_antisymm (not_lt.1 (h'.not_before h)) (not_lt.1 (h.not_before h'))

/-- A further distance that is not below the least one changes nothing. -/
theorem NearestAt.concat (h : NearestAt distances i d) (hx : ¬lt x d = true) :
    NearestAt (distances ++ [x]) i d where
  found := by rw [List.getElem?_append_left h.lt_length, h.found]
  below := h.below
  least j e hj he := by
    rcases Nat.lt_or_ge j distances.length with hlt | hge
    · rw [List.getElem?_append_left hlt] at hj
      exact h.least j e hj he
    · rw [List.getElem?_append_right hge, List.getElem?_singleton] at hj
      obtain ⟨-, hx'⟩ := Option.ite_none_right_eq_some.1 hj
      obtain rfl := Option.some.inj hx'
      exact Placed.le_of_not_lt (Capped.isNaN_of_belowLargest h.below) he hx
  first j e hji hj he := by
    rw [List.getElem?_append_left (hji.trans h.lt_length)] at hj
    exact h.first j e hji hj he

/-- A further distance below all numbers before it is the least one. -/
theorem nearestAt_last (hx : belowLargest x = true)
    (h : ∀ e ∈ distances, isNaN e = false → lt x e = true) :
    NearestAt (distances ++ [x]) distances.length x where
  found := List.getElem?_concat_length
  below := hx
  least j e hj he := by
    rcases List.mem_append.1 (List.mem_of_getElem? hj) with hmem | hmem
    · exact Placed.le_of_lt (h e hmem he)
    · rw [List.mem_singleton.1 hmem]
      exact Placed.le_refl (Capped.isNaN_of_belowLargest hx)
  first j e hji hj he := by
    rw [List.getElem?_append_left hji] at hj
    exact h e (List.mem_of_getElem? hj) he

/-- What the scan ends with is the first of the least distances. -/
theorem nearestAt_of_scan (h : scan distances = some (i, d)) : NearestAt distances i d := by
  induction distances using List.reverseRecOn generalizing i d with
  | nil => cases h
  | append_singleton distances x ih =>
    rw [scan_concat] at h
    cases hscan : scan distances with
    | none =>
      rw [hscan, nearer] at h
      split at h
      · rename_i hx
        cases h
        exact nearestAt_last hx fun e he =>
          Capped.lt_of_not_belowLargest hx (not_belowLargest_of_scan hscan e he)
      · cases h
    | some best =>
      have hbest := ih hscan
      rw [hscan, nearer] at h
      split at h
      · rename_i hlt
        cases h
        refine nearestAt_last (Capped.belowLargest_of_lt hlt hbest.below) fun e he hnumber => ?_
        obtain ⟨j, hj⟩ := List.mem_iff_getElem?.1 he
        exact Placed.lt_of_lt_of_le hlt (hbest.least j e hj hnumber)
      · rename_i hnot
        cases h
        exact hbest.concat hnot

/-- The position that a scan ends with is that of the first least distance. -/
theorem leastIndex?_eq_some_iff :
    leastIndex? distances = some i ↔ ∃ d, NearestAt distances i d := by
  rw [leastIndex?_eq_scan]
  constructor
  · intro h
    obtain ⟨⟨j, d⟩, hscan, rfl⟩ := Option.map_eq_some_iff.1 h
    exact ⟨d, nearestAt_of_scan hscan⟩
  · rintro ⟨d, h⟩
    cases hscan : scan distances with
    | none => exact absurd h.below (not_belowLargest_of_scan hscan d h.mem)
    | some best => rw [Option.map_some, (nearestAt_of_scan hscan).unique h]

theorem leastIndex?_eq_none_iff :
    leastIndex? distances = none ↔ ∀ d ∈ distances, ¬belowLargest d = true := by
  rw [leastIndex?_eq_scan, Option.map_eq_none_iff]
  refine ⟨not_belowLargest_of_scan, fun h => ?_⟩
  cases hscan : scan distances with
  | none => rfl
  | some best =>
    have hbest := nearestAt_of_scan hscan
    exact absurd hbest.below (h _ hbest.mem)

end Scan

section Removal

/-- Positions from a place on move up by one, and the scan ends with the same distance. -/
theorem foldl_nearer_moved (n : ℕ) (distances : List α) {start : ℕ} (hstart : n ≤ start)
    (best : Option (ℕ × α)) :
    (distances.zipIdx (start + 1)).foldl nearer
        (best.map (Prod.map (fun i => if i < n then i else i + 1) id)) =
      ((distances.zipIdx start).foldl nearer best).map
        (Prod.map (fun i => if i < n then i else i + 1) id) := by
  induction distances generalizing start best with
  | nil => rfl
  | cons d distances ih =>
    rw [List.zipIdx_cons, List.zipIdx_cons, List.foldl_cons, List.foldl_cons,
      ← ih (Nat.le_succ_of_le hstart)]
    congr 1
    cases best with
    | none => by_cases h : belowLargest d = true <;> simp [nearer, h, Nat.not_lt.2 hstart]
    | some best =>
      by_cases h : lt d best.2 = true <;> simp [nearer, h, Nat.not_lt.2 hstart, Prod.map]

variable [Placed α] [Capped α] {before after : List α} {d : α}

theorem nearer_of_isNaN (best : Option (ℕ × α)) (hd : isNaN d = true) (i : ℕ) :
    nearer best (d, i) = best := by
  cases best with
  | none =>
    rw [nearer, if_neg fun hbelow => ?_]
    rw [Capped.isNaN_of_belowLargest hbelow] at hd
    cases hd
  | some best =>
    rw [nearer, if_neg fun hlt => ?_]
    rw [(Placed.lt_iff.1 hlt).1] at hd
    cases hd

/-- A distance that is not a number can be left out. -/
theorem leastIndex?_of_isNaN (hd : isNaN d = true) :
    leastIndex? (before ++ d :: after) =
      (leastIndex? (before ++ after)).map fun i => if i < before.length then i else i + 1 := by
  have hkept : (scan before).map (Prod.map (fun i => if i < before.length then i else i + 1) id) =
      scan before := by
    cases hscan : scan before with
    | none => rfl
    | some best => simp [Prod.map, (nearestAt_of_scan hscan).lt_length]
  have hwith : scan (before ++ d :: after) =
      (after.zipIdx (before.length + 1)).foldl nearer (scan before) := by
    simp [scan, List.zipIdx_append, nearer_of_isNaN _ hd]
  have hwithout : scan (before ++ after) =
      (after.zipIdx before.length).foldl nearer (scan before) := by
    simp [scan, List.zipIdx_append]
  have hmoved := foldl_nearer_moved before.length after le_rfl (scan before)
  rw [hkept, ← hwith, ← hwithout] at hmoved
  rw [leastIndex?_eq_scan, leastIndex?_eq_scan, hmoved, Option.map_map, Option.map_map]
  rfl

/-- A center at such a distance can be left out. -/
theorem closest?_of_isNaN {before after : List (List α)} {center point : List α}
    (h : isNaN (squaredDistance center point) = true) :
    closest? (before ++ center :: after) point =
      (closest? (before ++ after) point).map fun i => if i < before.length then i else i + 1 := by
  rw [closest?, closest?, List.map_append, List.map_cons, leastIndex?_of_isNaN h, List.map_append,
    List.length_map]

end Removal

/-- The distance of two points counts their common coordinates. -/
theorem squaredDistance_take (a b : List α) :
    squaredDistance a b = squaredDistance (a.take b.length) (b.take a.length) := by
  rw [squaredDistance, squaredDistance, List.zipWith_eq_zipWith_take_min]
  congr 2 <;> simp [Nat.min_comm]

namespace Double

/-- The largest double, as a place. -/
instance : Capped Float where
  cap := Placed.place largestDouble
  belowLargest_iff {x} := by
    have hlargest : isNaN largestDouble = false := by decide +kernel
    have hbelow : belowLargest x = lt x largestDouble := rfl
    rw [hbelow, Placed.lt_iff, hlargest]
    simp

end Double

/-- A point belongs to the first of the centers at the least distance, if that distance is below the
largest finite number; else no distance is, and the point belongs to none. Coordinates that only one
of two points has do not count. A center at a distance that is not a number gets no point, and
without it every point belongs to the center that it belongs to with it. -/
theorem Centroids.closest?_first_nearest (c : Centroids Float) (point : List Float) :
    let distances := c.centers.map fun center => squaredDistance center point
    (∀ i, c.closest? point = some i ↔ ∃ d, distances[i]? = some d ∧ d < largestDouble ∧
      (∀ (j : ℕ) e, distances[j]? = some e → e.isNaN = false → d ≤ e) ∧
      ∀ j e, j < i → distances[j]? = some e → e.isNaN = false → d < e) ∧
    (c.closest? point = none ↔ ∀ d ∈ distances, ¬d < largestDouble) ∧
    (∀ center, squaredDistance center point =
      squaredDistance (center.take point.length) (point.take center.length)) ∧
    ∀ before center after, c.centers = before ++ center :: after →
      (squaredDistance center point).isNaN = true →
      c.closest? point ≠ some before.length ∧
      c.closest? point = (ClauseTriage.closest? (before ++ after) point).map fun i =>
        if i < before.length then i else i + 1 := by
  intro distances
  have hlt (x y : Float) : lt x y = true ↔ x < y := decide_eq_true_iff
  have hle (x y : Float) : le x y = true ↔ x ≤ y := decide_eq_true_iff
  have hbelow (x : Float) : belowLargest x = true ↔ x < largestDouble := decide_eq_true_iff
  refine ⟨fun i => ?_, ?_, fun center => squaredDistance_take center point,
    fun before center after hcenters hnan => ?_⟩
  · refine leastIndex?_eq_some_iff.trans (exists_congr fun d => ⟨fun h => ?_, fun h => ?_⟩)
    · refine ⟨h.found, (hbelow d).1 h.below, fun j e hj he => ?_, fun j e hji hj he => ?_⟩
      · exact (hle d e).1 (h.least j e hj he)
      · exact (hlt d e).1 (h.first j e hji hj he)
    · obtain ⟨hd, hlargest, hleast, hfirst⟩ := h
      refine ⟨hd, (hbelow d).2 hlargest, fun j e hj he => ?_, fun j e hji hj he => ?_⟩
      · exact (hle d e).2 (hleast j e hj he)
      · exact (hlt d e).2 (hfirst j e hji hj he)
  · refine leastIndex?_eq_none_iff.trans (forall₂_congr fun d _ => ?_)
    rw [hbelow]
  · have hwithout : c.closest? point = (ClauseTriage.closest? (before ++ after) point).map fun i =>
        if i < before.length then i else i + 1 := by
      rw [Centroids.closest?, hcenters]
      exact closest?_of_isNaN hnan
    refine ⟨fun hwins => ?_, hwithout⟩
    obtain ⟨i, -, hi⟩ := Option.map_eq_some_iff.1 (hwithout.symm.trans hwins)
    split at hi <;> omega

/-- The first center is at a distance that is not a number, the other two are equally near. -/
example : ClauseTriage.closest? [[0.0 / 0.0], [4.0], [2.0]] ([3.0, 7.0] : List Float) = some 1 := by
  decide +kernel

end ClauseTriage
