import ClauseTriage.Proofs.Cluster.Nearest
import ClauseTriage.Proofs.Cluster.Rounds
import ClauseTriage.Proofs.Groups

/-!
# The cost of a clustering

The cost of a clustering adds up the squared distances of the points to the centers of their labels.
Over exact fractions a round never raises it. The two halves of a round lower it for different reasons:
the mean is the place at the least cost for the points of a center, coordinate by coordinate, and the
nearest center is the one at the least cost for a point.
-/
namespace ClauseTriage.Lloyd

open Scalar

/-- Squared distances of the points to the centers of their labels, added up. -/
def cost (centers points : List (List ℚ)) (labels : List ℕ) : ℚ :=
  ((points.zip labels).map fun e => squaredDistance (centers.getD e.2 []) e.1).sum

/-- Cost of what a run of at most so many rounds ends with. -/
def costOfRun (dimension : ℕ) (points centers : List (List ℚ)) (rounds : ℕ) : ℚ :=
  let run := iterate dimension points rounds centers (assign centers points)
  cost run.1 points run.2

section Coordinates

variable {dimension : ℕ} {center : List ℚ} {members : List (List ℚ)}

/-- The squared distance of two points, over the coordinates that both have. -/
theorem squaredDistance_eq_sum (a b : List ℚ) : squaredDistance a b =
    ∑ j ∈ Finset.range (min a.length b.length), (a.getD j 0 - b.getD j 0) ^ 2 := by
  rw [squaredDistance, sum_eq_listSum]
  induction a generalizing b with
  | nil => simp
  | cons x a ih =>
    cases b with
    | nil => simp
    | cons y b =>
      rw [List.zipWith_cons_cons, List.sum_cons, ih, List.length_cons, List.length_cons,
        Nat.succ_min_succ, Finset.sum_range_succ', add_comm]
      simp [sq]

theorem sum_le_squaredDistance {a b : List ℚ} (ha : dimension ≤ a.length)
    (hb : dimension ≤ b.length) :
    ∑ j ∈ Finset.range dimension, (a.getD j 0 - b.getD j 0) ^ 2 ≤ squaredDistance a b := by
  rw [squaredDistance_eq_sum]
  apply Finset.sum_le_sum_of_subset_of_nonneg
  · exact Finset.range_subset_range.2 (le_min ha hb)
  · exact fun j _ _ => sq_nonneg _

theorem getD_addPoint {sum point : List ℚ} (h : sum.length ≤ point.length) {j : ℕ}
    (hj : j < sum.length) : (addPoint sum point).getD j 0 = sum.getD j 0 + point.getD j 0 := by
  induction sum generalizing point j with
  | nil => exact absurd hj (Nat.not_lt_zero j)
  | cons a sum ih =>
    obtain ⟨x, point, rfl⟩ := List.exists_cons_of_length_pos (Nat.zero_lt_of_lt h)
    cases j with
    | zero => rfl
    | succ j => exact ih (Nat.le_of_succ_le_succ h) (Nat.lt_of_succ_lt_succ hj)

theorem getD_foldl_addPoint {sum : List ℚ} (h : ∀ p ∈ members, sum.length ≤ p.length) {j : ℕ}
    (hj : j < sum.length) : (members.foldl addPoint sum).getD j 0 =
      sum.getD j 0 + (members.map fun p => p.getD j 0).sum := by
  induction members generalizing sum with
  | nil => simp
  | cons point members ih =>
    have hrest : ∀ p ∈ members, (addPoint sum point).length ≤ p.length := by
      intro p hp
      rw [addPoint_length]
      exact h p (List.mem_cons_of_mem _ hp)
    rw [List.foldl_cons, ih hrest (by rwa [addPoint_length]),
      getD_addPoint (h point List.mem_cons_self) hj, List.map_cons, List.sum_cons, add_assoc]

/-- Every coordinate of a moved center is the mean of those of its points. -/
theorem getD_recenter (hne : members ≠ []) (h : ∀ p ∈ members, dimension ≤ p.length) {j : ℕ}
    (hj : j < dimension) : (recenter dimension center members).getD j 0 =
      (members.map fun p => p.getD j 0).sum / (members.map fun p => p.getD j 0).length := by
  have hsum : (members.foldl addPoint (List.replicate dimension (zero : ℚ))).getD j 0 =
      (members.map fun p => p.getD j 0).sum := by
    rw [getD_foldl_addPoint (by simpa using h) (by simpa using hj)]
    have hstart : (List.replicate dimension (zero : ℚ)).getD j 0 = 0 := by simp [hj, zero, ofNat]
    rw [hstart, zero_add]
  have hlength : j < (members.foldl addPoint (List.replicate dimension (zero : ℚ))).length := by
    rwa [foldl_addPoint_length, List.length_replicate]
  rw [List.getD_eq_getElem _ _ hlength] at hsum
  rw [recenter, if_neg (by simpa using hne), List.getD_eq_getElem _ _ (by rwa [List.length_map]),
    List.getElem_map, hsum, List.length_map]
  rfl

end Coordinates

section Means

theorem sum_sq_sub (xs : List ℚ) (c : ℚ) :
    (xs.map fun x => (c - x) ^ 2).sum =
      xs.length * c ^ 2 - 2 * c * xs.sum + (xs.map fun x => x ^ 2).sum := by
  induction xs with
  | nil => simp
  | cons x xs ih =>
    simp only [List.map_cons, List.sum_cons, List.length_cons, ih]
    push_cast
    ring

/-- Moving from the mean adds the square of the step once for every number. -/
theorem sum_sq_eq_sum_sq_mean_add {xs : List ℚ} (h : xs ≠ []) (c : ℚ) :
    (xs.map fun x => (c - x) ^ 2).sum =
      (xs.map fun x => (xs.sum / xs.length - x) ^ 2).sum +
        xs.length * (c - xs.sum / xs.length) ^ 2 := by
  have hlength : (xs.length : ℚ) ≠ 0 := by simpa using h
  rw [sum_sq_sub, sum_sq_sub]
  field_simp
  ring

theorem sum_sq_mean_le {xs : List ℚ} (h : xs ≠ []) (c : ℚ) :
    (xs.map fun x => (xs.sum / xs.length - x) ^ 2).sum ≤ (xs.map fun x => (c - x) ^ 2).sum := by
  rw [sum_sq_eq_sum_sq_mean_add h c]
  exact le_add_of_nonneg_right (by positivity)

end Means

section Moving

variable {dimension : ℕ} {centers points members : List (List ℚ)} {labels : List ℕ}

theorem sum_map_sum_range {β : Type} (xs : List β) (f : β → ℕ → ℚ) (dimension : ℕ) :
    (xs.map fun x => ∑ j ∈ Finset.range dimension, f x j).sum =
      ∑ j ∈ Finset.range dimension, (xs.map fun x => f x j).sum := by
  induction xs with
  | nil => simp
  | cons x xs ih => simp [ih, Finset.sum_add_distrib]

/-- Squared distances from one center, coordinate by coordinate. -/
def spread (center : List ℚ) (members : List (List ℚ)) (j : ℕ) : ℚ :=
  ((members.map fun p => p.getD j 0).map fun x => (center.getD j 0 - x) ^ 2).sum

theorem sum_spread (center : List ℚ) (members : List (List ℚ)) (dimension : ℕ) :
    ∑ j ∈ Finset.range dimension, spread center members j = (members.map fun p =>
      ∑ j ∈ Finset.range dimension, (center.getD j 0 - p.getD j 0) ^ 2).sum := by
  rw [sum_map_sum_range]
  simp only [spread, List.map_map, Function.comp_def]

theorem sum_squaredDistance_eq {center : List ℚ} (h : ∀ p ∈ members, dimension ≤ p.length)
    (hcenter : center.length = dimension) : (members.map (squaredDistance center)).sum =
      ∑ j ∈ Finset.range dimension, spread center members j := by
  rw [sum_spread]
  congr 1
  apply List.map_congr_left
  intro p hp
  rw [squaredDistance_eq_sum, hcenter, Nat.min_eq_left (h p hp)]

theorem sum_spread_le {center : List ℚ} (h : ∀ p ∈ members, dimension ≤ p.length)
    (hcenter : dimension ≤ center.length) :
    ∑ j ∈ Finset.range dimension, spread center members j ≤
      (members.map (squaredDistance center)).sum := by
  rw [sum_spread]
  apply List.sum_le_sum
  exact fun p hp => sum_le_squaredDistance hcenter (h p hp)

/-- A center that moves to its points is nearer to them all in all. -/
theorem sum_squaredDistance_recenter_le {center : List ℚ}
    (h : ∀ p ∈ members, dimension ≤ p.length) (hcenter : dimension ≤ center.length) :
    (members.map (squaredDistance (recenter dimension center members))).sum ≤
      (members.map (squaredDistance center)).sum := by
  by_cases hne : members = []
  · simp [hne]
  · rw [sum_squaredDistance_eq h (recenter_length_of_ne_nil hne)]
    refine le_trans (Finset.sum_le_sum fun j hj => ?_) (sum_spread_le h hcenter)
    rw [spread, getD_recenter hne h (Finset.mem_range.1 hj)]
    exact sum_sq_mean_le (by simpa using hne) (center.getD j 0)

/-- The cost of a clustering, one label after another. -/
theorem cost_eq_sum_members (centers points : List (List ℚ)) (labels : List ℕ) :
    cost centers points labels = (labels.dedup.map fun label =>
      ((membersOf points labels label).map (squaredDistance (centers.getD label []))).sum).sum := by
  have hlabel : ∀ e ∈ points.zip labels, e.2 ∈ labels.dedup :=
    fun e he => List.mem_dedup.2 (List.of_mem_zip he).2
  have hgroups := flatMap_filter_perm labels.nodup_dedup Prod.snd hlabel
  have hcost := (hgroups.map fun e => squaredDistance (centers.getD e.2 []) e.1).sum_eq
  rw [cost, ← hcost, List.map_flatMap, List.flatMap_def, List.sum_flatten, List.map_map]
  congr 1
  apply List.map_congr_left
  intro label _
  rw [Function.comp_apply, membersOf, List.map_map]
  congr 1
  apply List.map_congr_left
  intro e he
  rw [Function.comp_apply, beq_iff_eq.1 (List.mem_filter.1 he).2]

theorem getD_recenterAll {label : ℕ} (h : label < centers.length) :
    (recenterAll dimension centers points labels).getD label [] =
      recenter dimension (centers.getD label []) (membersOf points labels label) := by
  simp [recenterAll, List.getD_eq_getElem?_getD, h]

/-- Moving every center to its points does not raise the cost, whatever the labels are. -/
theorem cost_recenterAll_le (hpoints : ∀ p ∈ points, dimension ≤ p.length)
    (hcenters : ∀ c ∈ centers, dimension ≤ c.length) (labels : List ℕ) :
    cost (recenterAll dimension centers points labels) points labels ≤
      cost centers points labels := by
  rw [cost_eq_sum_members, cost_eq_sum_members]
  apply List.sum_le_sum
  intro label _
  have hmembers : ∀ p ∈ membersOf points labels label, dimension ≤ p.length := by
    intro p hp
    obtain ⟨e, he, rfl⟩ := List.mem_map.1 hp
    exact hpoints e.1 (List.of_mem_zip (List.mem_of_mem_filter he)).1
  rcases Nat.lt_or_ge label centers.length with hlt | hge
  · rw [getD_recenterAll hlt]
    apply sum_squaredDistance_recenter_le hmembers
    rw [List.getD_eq_getElem _ _ hlt]
    exact hcenters _ (List.getElem_mem hlt)
  · rw [List.getD_eq_default _ _ hge, List.getD_eq_default _ _ (by simpa [recenterAll] using hge)]

end Moving

section Labels

variable {centers others points : List (List ℚ)}

theorem cost_map (centers points : List (List ℚ)) (labelOf : List ℚ → ℕ) :
    cost centers points (points.map labelOf) =
      (points.map fun p => squaredDistance (centers.getD (labelOf p) []) p).sum := by
  rw [cost, ← List.map_id points, List.map_map, List.zip_map', List.map_map]
  simp [Function.comp_def]

/-- No center is nearer to a point than that of its label. -/
theorem squaredDistance_labelOf_le (point : List ℚ) {label : ℕ} (h : label < centers.length) :
    squaredDistance (centers.getD (labelOf centers point) []) point ≤
      squaredDistance (centers.getD label []) point := by
  have hat {i : ℕ} (hi : i < centers.length) : (centers.map fun c => squaredDistance c point)[i]? =
      some (squaredDistance (centers.getD i []) point) := by
    simp [hi, List.getD_eq_getElem?_getD]
  obtain ⟨i, hi⟩ : ∃ i, closest? centers point = some i := by
    rw [← Option.ne_none_iff_exists', closest?, Ne, leastIndex?_eq_none_iff]
    intro hnone
    exact hnone _ (List.mem_of_getElem? (hat h)) rfl
  obtain ⟨d, hnearest⟩ := leastIndex?_eq_some_iff.1 hi
  have hd := hnearest.found
  rw [hat (closest?_lt hi)] at hd
  rw [labelOf_eq, hi, Option.getD_some, Option.some.inj hd]
  exact of_decide_eq_true (hnearest.least label _ (hat h) rfl)

/-- Labelling the points afresh does not raise the cost. -/
theorem cost_assign_le (points : List (List ℚ)) (h : centers.length = others.length) :
    cost centers points (assign centers points) ≤ cost centers points (assign others points) := by
  rw [assign, assign, cost_map, cost_map]
  apply List.sum_le_sum
  intro p _
  by_cases hne : others = []
  · have hnone : centers = [] := List.length_eq_zero_iff.1 (by simpa [hne] using h)
    simp [hnone]
  · exact squaredDistance_labelOf_le p (h ▸ labelOf_lt hne p)

end Labels

section Run

variable {dimension n m : ℕ} {points centers : List (List ℚ)}

theorem length_centersAfter :
    (centersAfter dimension points centers n).length = centers.length := by
  induction n with
  | zero => rfl
  | succ n ih => rw [centersAfter_succ, recenterAll, List.length_map, List.length_zipIdx, ih]

/-- No round takes a coordinate of the points from a center. -/
theorem le_length_centersAfter (h : ∀ c ∈ centers, dimension ≤ c.length) :
    ∀ c ∈ centersAfter dimension points centers n, dimension ≤ c.length := by
  induction n with
  | zero => exact h
  | succ n ih =>
    rw [centersAfter_succ]
    intro c hc
    obtain ⟨⟨center, i⟩, hcenter, rfl⟩ := List.mem_map.1 hc
    dsimp only
    by_cases hmembers : membersOf points (labelsAfter dimension points centers n) i = []
    · rw [hmembers]
      exact ih center (List.fst_mem_of_mem_zipIdx hcenter)
    · exact (recenter_length_of_ne_nil hmembers).ge

/-- One round: moving the centers does not raise the cost, and labelling afresh does not either. -/
theorem cost_round_le (hpoints : ∀ p ∈ points, dimension ≤ p.length)
    (hcenters : ∀ c ∈ centers, dimension ≤ c.length) (n : ℕ) :
    cost (centersAfter dimension points centers (n + 1)) points
        (labelsAfter dimension points centers n) ≤
      cost (centersAfter dimension points centers n) points
        (labelsAfter dimension points centers n) ∧
    cost (centersAfter dimension points centers (n + 1)) points
        (labelsAfter dimension points centers (n + 1)) ≤
      cost (centersAfter dimension points centers (n + 1)) points
        (labelsAfter dimension points centers n) := by
  constructor
  · rw [centersAfter_succ]
    exact cost_recenterAll_le hpoints (le_length_centersAfter hcenters) _
  · exact cost_assign_le points (by rw [length_centersAfter, length_centersAfter])

/-- The cost after some rounds is not above that after fewer. -/
theorem cost_after_le (hpoints : ∀ p ∈ points, dimension ≤ p.length)
    (hcenters : ∀ c ∈ centers, dimension ≤ c.length) (hnm : n ≤ m) :
    cost (centersAfter dimension points centers m) points (labelsAfter dimension points centers m) ≤
      cost (centersAfter dimension points centers n) points
        (labelsAfter dimension points centers n) := by
  induction hnm with
  | refl => exact le_rfl
  | @step m _ ih =>
    obtain ⟨hmoved, hassigned⟩ := cost_round_le hpoints hcenters m
    exact hassigned.trans (hmoved.trans ih)

theorem costOfRun_zero (dimension : ℕ) (points centers : List (List ℚ)) :
    costOfRun dimension points centers 0 = cost centers points (assign centers points) := rfl

theorem antitone_costOfRun (hpoints : ∀ p ∈ points, dimension ≤ p.length)
    (hcenters : ∀ c ∈ centers, dimension ≤ c.length) :
    Antitone (costOfRun dimension points centers) := by
  intro rounds more hmore
  obtain ⟨n, m, hnm, hrounds, hmore⟩ := exists_iterate_eq dimension points centers hmore
  rw [costOfRun, costOfRun, hrounds, hmore]
  exact cost_after_le hpoints hcenters hnm

end Run

/-- Over exact fractions, where no point and no center lacks a coordinate that is averaged: in every
round neither moving the centers nor labelling the points afresh raises the cost, whether a center has
points or lost all of them; a run that may make more rounds ends at no higher cost; and no run ends at
a higher cost than that of the centers it starts from. -/
theorem cost_never_rises (dimension : ℕ) (points centers : List (List ℚ))
    (hpoints : ∀ p ∈ points, dimension ≤ p.length)
    (hcenters : ∀ c ∈ centers, dimension ≤ c.length) :
    (∀ n,
      let before := centersAfter dimension points centers n
      let moved := recenterAll dimension before points (assign before points)
      centersAfter dimension points centers (n + 1) = moved ∧
      cost moved points (assign before points) ≤ cost before points (assign before points) ∧
      cost moved points (assign moved points) ≤ cost moved points (assign before points)) ∧
    Antitone (costOfRun dimension points centers) ∧
    ∀ rounds, costOfRun dimension points centers rounds ≤
      cost centers points (assign centers points) := by
  have hruns := antitone_costOfRun hpoints hcenters
  refine ⟨fun n => ?_, hruns, fun rounds => ?_⟩
  · have hround := cost_round_le hpoints hcenters n
    rw [labelsAfter, labelsAfter, centersAfter_succ] at hround
    exact ⟨centersAfter_succ, hround⟩
  · rw [← costOfRun_zero dimension]
    exact hruns (Nat.zero_le rounds)

/-- The middle center loses both of its points in the second round and stays where the first one moved
it. -/
theorem cost_never_rises_lost_points :
    let points : List (List ℚ) := [[3], [4], [5], [8], [9]]
    let start : List (List ℚ) := [[0], [7], [11]]
    (∀ p ∈ points, 1 ≤ p.length) ∧ (∀ c ∈ start, 1 ≤ c.length) ∧
      labelsAfter 1 points start 1 = [0, 0, 1, 1, 2] ∧
      labelsAfter 1 points start 2 = [0, 0, 0, 2, 2] ∧
      centersAfter 1 points start 3 = [[4], [13 / 2], [17 / 2]] ∧
      (List.range 4).map (costOfRun 1 points start) = [27, 19 / 2, 15 / 4, 5 / 2] ∧
      Antitone (costOfRun 1 points start) ∧
      costOfRun 1 points start 300 ≤ cost start points (assign start points) := by
  intro points start
  have hpoints : ∀ p ∈ points, 1 ≤ p.length := by decide
  have hcenters : ∀ c ∈ start, 1 ≤ c.length := by decide
  obtain ⟨-, hruns, hstart⟩ := cost_never_rises 1 points start hpoints hcenters
  exact ⟨hpoints, hcenters, by decide +kernel, by decide +kernel, by decide +kernel,
    by decide +kernel, hruns, hstart 300⟩

/-- Where a point lacks a coordinate, the mean counts it all the same and moves away from the points
that have one; where a center lacks one, it is near to every point until it is given one. -/
theorem cost_rises_ragged :
    let points : List (List ℚ) := [[0, 10], [0]]
    let start : List (List ℚ) := [[0, 10]]
    let flat : List (List ℚ) := [[4], [6]]
    cost start points (assign start points) = 0 ∧
      iterate 2 points 1 start (assign start points) = ([[0, 5]], [0, 0]) ∧
      costOfRun 2 points start 1 = 25 ∧
      cost [[]] flat (assign [[]] flat) = 0 ∧
      iterate 1 flat 1 [[]] (assign [[]] flat) = ([[5]], [0, 0]) ∧
      costOfRun 1 flat [[]] 1 = 2 := by
  decide +kernel

end ClauseTriage.Lloyd
