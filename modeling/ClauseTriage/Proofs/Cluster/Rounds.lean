import ClauseTriage.Proofs.Cluster.Labels

/-!
# Rounds of moving centers

A round moves every center to the mean of its points and labels the points afresh. A round that
leaves the labels as they were is the last: moving by the same labels moves nothing more, so what
stands after it is a fixed point, and no further round would change it.
-/
namespace ClauseTriage.Lloyd

variable {α : Type} [Scalar α]

/-- Centers moved to the points that belong to them. -/
def move (dimension : ℕ) (points centers : List (List α)) : List (List α) :=
  recenterAll dimension centers points (assign centers points)

/-- Centers after so many rounds, whether the labels change or not. -/
def centersAfter (dimension : ℕ) (points centers : List (List α)) (rounds : ℕ) : List (List α) :=
  (move dimension points)^[rounds] centers

/-- Labels after so many rounds. -/
def labelsAfter (dimension : ℕ) (points centers : List (List α)) (rounds : ℕ) : List ℕ :=
  assign (centersAfter dimension points centers rounds) points

/-- The round after the first `n` leaves the labels as they were. -/
def Settled (dimension : ℕ) (points centers : List (List α)) (n : ℕ) : Prop :=
  labelsAfter dimension points centers (n + 1) = labelsAfter dimension points centers n

instance (dimension : ℕ) (points centers : List (List α)) (n : ℕ) :
    Decidable (Settled dimension points centers n) := inferInstanceAs (Decidable (_ = _))

variable {dimension : ℕ} {points centers : List (List α)} {labels : List ℕ} {n m rounds : ℕ}

theorem centersAfter_succ : centersAfter dimension points centers (n + 1) =
    recenterAll dimension (centersAfter dimension points centers n) points
      (labelsAfter dimension points centers n) :=
  Function.iterate_succ_apply' _ _ _

theorem settled_move :
    Settled dimension points (move dimension points centers) n ↔
      Settled dimension points centers (n + 1) := Iff.rfl

section FixedPoint

/-- The mean of the points of a center does not depend on where the center is. -/
theorem recenter_recenter (center : List α) (members : List (List α)) :
    recenter dimension (recenter dimension center members) members =
      recenter dimension center members := by
  unfold recenter
  split <;> rfl

/-- Moving twice by the same labels is moving once. -/
theorem recenterAll_recenterAll :
    recenterAll dimension (recenterAll dimension centers points labels) points labels =
      recenterAll dimension centers points labels := by
  apply List.ext_getElem
  · simp [recenterAll]
  · intro i _ _
    simp [recenterAll, recenter_recenter]

theorem recenterAll_centersAfter :
    recenterAll dimension (centersAfter dimension points centers (n + 1)) points
      (labelsAfter dimension points centers n) = centersAfter dimension points centers (n + 1) := by
  rw [centersAfter_succ, recenterAll_recenterAll]

namespace Settled

/-- After a round that leaves the labels as they were no center moves. -/
theorem isFixedPt (h : Settled dimension points centers n) :
    Function.IsFixedPt (move dimension points)
      (centersAfter dimension points centers (n + 1)) := by
  have hlabels : assign (centersAfter dimension points centers (n + 1)) points =
      labelsAfter dimension points centers n := h
  rw [Function.IsFixedPt, move, hlabels, recenterAll_centersAfter]

theorem centersAfter_eq (h : Settled dimension points centers n) (hm : n < m) :
    centersAfter dimension points centers m = centersAfter dimension points centers (n + 1) := by
  obtain ⟨k, rfl⟩ := Nat.exists_eq_add_of_le' hm
  rw [centersAfter, Function.iterate_add_apply]
  exact h.isFixedPt.iterate k

theorem labelsAfter_eq (h : Settled dimension points centers n) (hm : n ≤ m) :
    labelsAfter dimension points centers m = labelsAfter dimension points centers n := by
  rcases hm.eq_or_lt with rfl | hlt
  · rfl
  · rw [labelsAfter, h.centersAfter_eq hlt]
    exact h

end Settled

end FixedPoint

section Run

theorem iterate_succ : iterate dimension points (rounds + 1) centers (assign centers points) =
    if Settled dimension points centers 0 then
      (move dimension points centers, assign centers points)
    else iterate dimension points rounds (move dimension points centers)
      (assign (move dimension points centers) points) := rfl

/-- A run that meets a round which leaves the labels as they were ends with it. -/
theorem iterate_of_settled (h : Settled dimension points centers n) (hn : n < rounds) :
    iterate dimension points rounds centers (assign centers points) =
      (centersAfter dimension points centers (n + 1), labelsAfter dimension points centers n) := by
  induction n generalizing centers rounds with
  | zero =>
    obtain ⟨rounds, rfl⟩ := Nat.exists_eq_add_one_of_ne_zero hn.ne'
    rw [iterate_succ, if_pos h]
    rfl
  | succ n ih =>
    obtain ⟨rounds, rfl⟩ := Nat.exists_eq_add_one_of_ne_zero (Nat.zero_lt_of_lt hn).ne'
    rw [iterate_succ]
    split
    · rename_i hfirst
      rw [hfirst.centersAfter_eq (Nat.succ_pos (n + 1)), hfirst.labelsAfter_eq (Nat.zero_le _)]
      rfl
    · exact ih (settled_move.2 h) (Nat.succ_lt_succ_iff.1 hn)

/-- A run whose rounds all change a label makes all of them. -/
theorem iterate_of_not_settled (h : ∀ n < rounds, ¬Settled dimension points centers n) :
    iterate dimension points rounds centers (assign centers points) =
      (centersAfter dimension points centers rounds, labelsAfter dimension points centers rounds) := by
  induction rounds generalizing centers with
  | zero => rfl
  | succ rounds ih =>
    rw [iterate_succ, if_neg (h 0 (Nat.succ_pos rounds))]
    exact ih fun n hn => settled_move.not.2 (h (n + 1) (Nat.succ_lt_succ hn))

/-- However two runs end, they end with the centers and labels after some number of rounds, and the one
that may make more rounds does not make fewer. -/
theorem exists_iterate_eq (dimension : ℕ) (points centers : List (List α)) {rounds more : ℕ}
    (hmore : rounds ≤ more) : ∃ n m, n ≤ m ∧
    iterate dimension points rounds centers (assign centers points) =
      (centersAfter dimension points centers n, labelsAfter dimension points centers n) ∧
    iterate dimension points more centers (assign centers points) =
      (centersAfter dimension points centers m, labelsAfter dimension points centers m) := by
  have hends {k n : ℕ} (hn : n < k) (hsettled : Settled dimension points centers n) :
      iterate dimension points k centers (assign centers points) =
        (centersAfter dimension points centers (n + 1),
          labelsAfter dimension points centers (n + 1)) := by
    rw [iterate_of_settled hsettled hn, hsettled]
  by_cases h : ∃ n < rounds, Settled dimension points centers n
  · obtain ⟨n, hn, hsettled⟩ := h
    exact ⟨n + 1, n + 1, le_rfl, hends hn hsettled, hends (hn.trans_le hmore) hsettled⟩
  · have hchanging : ∀ n < rounds, ¬Settled dimension points centers n :=
      fun n hn hsettled => h ⟨n, hn, hsettled⟩
    by_cases h' : ∃ n < more, Settled dimension points centers n
    · obtain ⟨n, hn, hsettled⟩ := h'
      have hle : rounds ≤ n := not_lt.1 fun hlt => hchanging n hlt hsettled
      exact ⟨rounds, n + 1, Nat.le_succ_of_le hle, iterate_of_not_settled hchanging,
        hends hn hsettled⟩
    · exact ⟨rounds, more, hmore, iterate_of_not_settled hchanging,
        iterate_of_not_settled fun n hn hsettled => h' ⟨n, hn, hsettled⟩⟩

/-- Fits of the same points differ only in what their rounds end with. -/
theorem fit_congr {points : List (List Float)} {clusters more : ℕ} {seed : UInt64}
    (h : ∀ start, seed? points.toArray clusters (.ofSeed seed) = some start →
      iterate (points.headD []).length points more start (assign start points) =
        iterate (points.headD []).length points rounds start (assign start points)) :
    fit more points clusters seed = fit rounds points clusters seed := by
  -- the seeding is a name from here on: unfolding it would run the random stream
  obtain ⟨seeded, hseeded⟩ : ∃ s, s = seed? points.toArray clusters (.ofSeed seed) := ⟨_, rfl⟩
  rw [← hseeded] at h
  rw [fit, fit, ← hseeded]
  cases seeded with
  | none => rfl
  | some start => simp only [h start rfl]

end Run

/-- Where a round of a fit leaves the labels as they were, the fit does not depend on how many more
rounds are allowed, and what it gives is a fixed point: moving its centers by its labels moves none of
them, and labelling the points by its centers gives its labels. -/
theorem fit_fixed_point (points : List (List Float)) (clusters : ℕ) (seed : UInt64)
    (start : List (List Float)) (rounds n : ℕ)
    (hstart : seed? points.toArray clusters (.ofSeed seed) = some start) (hn : n < rounds)
    (hsettled : Settled (points.headD []).length points start n) :
    (∀ more, n < more → fit more points clusters seed = fit rounds points clusters seed) ∧
      ∀ c, fit rounds points clusters seed = .ok c →
        c.centroids.centers = centersAfter (points.headD []).length points start (n + 1) ∧
        c.labels = labelsAfter (points.headD []).length points start n ∧
        recenterAll (points.headD []).length c.centroids.centers points c.labels =
          c.centroids.centers ∧
        assign c.centroids.centers points = c.labels := by
  constructor
  · intro more hmore
    apply fit_congr
    intro start' hstart'
    obtain rfl : start = start' := Option.some.inj (hstart.symm.trans hstart')
    rw [iterate_of_settled hsettled hmore, iterate_of_settled hsettled hn]
  · intro c hc
    obtain ⟨-, -, start', hstart', hrun⟩ := fit_eq_ok hc
    obtain rfl : start = start' := Option.some.inj (hstart.symm.trans hstart')
    rw [iterate_of_settled hsettled hn] at hrun
    obtain ⟨hcenters, hlabels⟩ := Prod.mk.inj hrun
    rw [hcenters, hlabels]
    exact ⟨rfl, rfl, recenterAll_centersAfter, hsettled⟩

/-- The first round changes a label and the second one does not. -/
theorem fit_fixed_point_second_round :
    let points : List (List Float) := [[0.0], [1.0], [3.0], [7.0]]
    ∃ start c, seed? points.toArray 2 (.ofSeed 2) = some start ∧
      ¬Settled 1 points start 0 ∧ Settled 1 points start 1 ∧
      fit 2 points 2 2 = .ok c ∧ fit 300 points 2 2 = .ok c ∧ c.labels = [1, 1, 0, 0] ∧
      recenterAll 1 c.centroids.centers points c.labels = c.centroids.centers ∧
      assign c.centroids.centers points = c.labels := by
  intro points
  have hseeded : (seed? points.toArray 2 (.ofSeed 2)).map (fun start =>
      (List.range 3).map (labelsAfter 1 points start)) =
        some [[1, 0, 0, 0], [1, 1, 0, 0], [1, 1, 0, 0]] := by decide +kernel
  have hrun : (fit 2 points 2 2).toOption.map Clustering.labels = some [1, 1, 0, 0] := by
    decide +kernel
  obtain ⟨start, hstart, hlabels⟩ := Option.map_eq_some_iff.1 hseeded
  obtain ⟨c, hc, hfound⟩ := exists_of_toOption_map hrun
  simp only [List.range, List.range.loop, List.map_cons, List.map_nil, List.cons.injEq,
    and_true] at hlabels
  obtain ⟨hzero, hone, htwo⟩ := hlabels
  have hsettled : Settled 1 points start 1 := htwo.trans hone.symm
  obtain ⟨hmore, hfixed⟩ := fit_fixed_point points 2 2 start 2 1 hstart (by decide) hsettled
  obtain ⟨-, -, hcenters, hassigned⟩ := hfixed c hc
  refine ⟨start, c, hstart, fun hfirst => ?_, hsettled, hc, (hmore 300 (by decide)).trans hc, hfound,
    hcenters, hassigned⟩
  exact absurd (hone.symm.trans (hfirst.trans hzero)) (by decide)

end ClauseTriage.Lloyd
