import ClauseTriage.Fit.Lloyd
import ClauseTriage.Proofs.Attempts
import ClauseTriage.Proofs.Random.Range

/-!
# Labels agree with routing

Rounds of assignment and moving keep one invariant: the labels are those of the current centers.
So the labels of a clustering send every point where its centroids send it.
-/
namespace ClauseTriage

variable {α : Type} [Scalar α]

open Scalar

theorem nearer_eq_some {best : Option (Nat × α)} {entry : α × Nat} {b : Nat × α}
    (h : nearer best entry = some b) : (b.2, b.1) = entry ∨ best = some b := by
  unfold nearer at h
  split at h
  · split at h
    · exact .inl (by rw [← Option.some.inj h])
    · exact absurd h (by simp)
  · split at h
    · exact .inl (by rw [← Option.some.inj h])
    · exact .inr h

/-- What a scan ends with is an entry of its list, or what it began with. -/
theorem foldl_nearer_eq_some {entries : List (α × Nat)} {best : Option (Nat × α)} {b : Nat × α}
    (h : entries.foldl nearer best = some b) : (b.2, b.1) ∈ entries ∨ best = some b := by
  induction entries generalizing best with
  | nil => exact .inr h
  | cons entry entries ih =>
    cases ih h with
    | inl hmem => exact .inl (List.mem_cons_of_mem _ hmem)
    | inr hbest =>
      rcases nearer_eq_some hbest with rfl | hbest
      · exact .inl List.mem_cons_self
      · exact .inr hbest

/-- The nearest of some centers is one of them. -/
theorem leastIndex?_lt {distances : List α} {i : Nat} (h : leastIndex? distances = some i) :
    i < distances.length := by
  obtain ⟨b, hb, rfl⟩ := Option.map_eq_some_iff.1 h
  cases foldl_nearer_eq_some hb with
  | inl hmem => simpa using List.snd_lt_add_of_mem_zipIdx hmem
  | inr hnone => simp at hnone

theorem closest?_lt {centers : List (List α)} {point : List α} {i : Nat}
    (h : closest? centers point = some i) : i < centers.length := by
  simpa using leastIndex?_lt h

/-- Accepted centers are kept as they are. -/
theorem Centroids.centers_of_ofList? {centers : List (List Float)} {c : Centroids Float}
    (h : Centroids.ofList? centers = .ok c) : c.centers = centers := by
  unfold Centroids.ofList? at h
  split at h
  · simp at h
  · dsimp only at h
    split at h
    · simp at h
    · rw [← Except.ok.inj h]

namespace Lloyd

/-- The scan for a label keeps what the scan for a center keeps, with 0 for no center. -/
theorem foldl_nearerLabel (entries : List (α × Nat)) (best : Option (Nat × α)) :
    entries.foldl nearerLabel ((best.map Prod.fst).getD 0, best.map Prod.snd) =
      (((entries.foldl nearer best).map Prod.fst).getD 0,
        (entries.foldl nearer best).map Prod.snd) := by
  induction entries generalizing best with
  | nil => rfl
  | cons entry entries ih =>
    rw [List.foldl_cons, List.foldl_cons, ← ih]
    congr 1
    cases best with
    | none => by_cases h : belowLargest entry.1 = true <;> simp [nearerLabel, nearer, h]
    | some best => by_cases h : lt entry.1 best.2 = true <;> simp [nearerLabel, nearer, h]

/-- The two scans agree: a label is the nearest center, or 0 without one. -/
theorem labelOf_eq (centers : List (List α)) (point : List α) :
    labelOf centers point = (closest? centers point).getD 0 := by
  have := foldl_nearerLabel (centers.map fun c => squaredDistance c point).zipIdx none
  simp only [Option.map_none, Option.getD_none] at this
  rw [labelOf, this]
  rfl

theorem labelOf_lt {centers : List (List α)} (h : centers ≠ []) (point : List α) :
    labelOf centers point < centers.length := by
  rw [labelOf_eq]
  cases hc : closest? centers point with
  | none => exact List.length_pos_iff.2 h
  | some i => exact closest?_lt hc

theorem addPoint_length (sum point : List α) : (addPoint sum point).length = sum.length := by
  fun_induction addPoint sum point with
  | case1 a sum x point ih => simp [ih]
  | case2 sum point h => rfl

theorem foldl_addPoint_length (members : List (List α)) (sum : List α) :
    (members.foldl addPoint sum).length = sum.length := by
  induction members generalizing sum with
  | nil => rfl
  | cons point members ih => rw [List.foldl_cons, ih, addPoint_length]

/-- A center that moves has as many coordinates as the points. -/
theorem recenter_length_of_ne_nil {dimension : Nat} {center : List α} {members : List (List α)}
    (h : members ≠ []) : (recenter dimension center members).length = dimension := by
  rw [recenter, if_neg (by simpa using h), List.length_map, foldl_addPoint_length,
    List.length_replicate]

theorem recenter_length {dimension : Nat} {center : List α} (members : List (List α))
    (h : center.length = dimension) : (recenter dimension center members).length = dimension := by
  by_cases hmembers : members = []
  · rw [hmembers]
    exact h
  · exact recenter_length_of_ne_nil hmembers

/-- Centers of one dimension, as many as there are clusters. -/
def Shaped (clusters dimension : Nat) (centers : List (List α)) : Prop :=
  centers.length = clusters ∧ ∀ c ∈ centers, c.length = dimension

theorem Shaped.recenterAll {clusters dimension : Nat} {centers : List (List α)}
    (h : Shaped clusters dimension centers) (points : List (List α)) (labels : List Nat) :
    Shaped clusters dimension (recenterAll dimension centers points labels) := by
  constructor
  · simpa [Lloyd.recenterAll] using h.1
  · intro c hc
    obtain ⟨⟨center, i⟩, hmem, rfl⟩ := List.mem_map.1 hc
    exact recenter_length _ (h.2 center (List.fst_mem_of_mem_zipIdx hmem))

/-- Labels that belong to the centers still do after any number of rounds, whether the last round
changed a label or not. -/
theorem iterate_labels {clusters dimension : Nat} {points : List (List α)} (rounds : Nat)
    {centers : List (List α)} {labels : List Nat} (hs : Shaped clusters dimension centers)
    (h : labels = assign centers points) :
    Shaped clusters dimension (iterate dimension points rounds centers labels).1 ∧
      (iterate dimension points rounds centers labels).2 =
        assign (iterate dimension points rounds centers labels).1 points := by
  induction rounds generalizing centers labels with
  | zero => exact ⟨hs, h⟩
  | succ rounds ih =>
    unfold iterate
    dsimp only
    split
    · rename_i hsame
      exact ⟨hs.recenterAll points labels, hsame.symm⟩
    · exact ih (hs.recenterAll points labels) rfl

/-- Rounds keep one label for each point. -/
theorem iterate_labels_length {dimension : Nat} {points : List (List α)} (rounds : Nat)
    {centers : List (List α)} {labels : List Nat} (h : labels.length = points.length) :
    (iterate dimension points rounds centers labels).2.length = points.length := by
  induction rounds generalizing centers labels with
  | zero => exact h
  | succ rounds ih =>
    unfold iterate
    dsimp only
    split
    · exact h
    · exact ih (by rw [assign, List.length_map])

/-- One step of seeding: a point is added, however its position was drawn. -/
theorem seedMore_step {points : Array (List Float)} (hne : 0 < points.size) {missing : Nat}
    {centers result : List (List Float)} {s s' : Random.Stream}
    (h : seedMore points (missing + 1) centers s = some (result, s')) :
    ∃ p ∈ points, ∃ s'', seedMore points missing (centers ++ [p]) s'' = some (result, s') := by
  have hmem {next : Nat} (hnext : next < points.size) : points.getD next [] ∈ points := by
    simp [Array.getD, hnext]
  rw [seedMore] at h
  simp only [bind, StateT.bind, Option.bind_eq_some_iff] at h
  obtain ⟨⟨picked, s''⟩, hpick, h⟩ := h
  have hpicked : (Random.pick (points.toList.map (seedWeight centers)) s).1 = picked :=
    congrArg Prod.fst (Option.some.inj hpick)
  cases picked with
  | position i => exact ⟨_, hmem (by simpa using Random.pick_lt hpicked), s'', h⟩
  | weightless => exact ⟨_, hmem (Random.below64_lt hne s''), _, h⟩
  | unbounded => simp [failure, StateT.bind, Alternative.failure, StateT.failure] at h

/-- Seeding takes its centers from the points. -/
theorem seedMore_shaped {points : Array (List Float)} {dimension : Nat} (hne : 0 < points.size)
    (hpoints : ∀ p ∈ points, p.length = dimension) {missing clusters : Nat}
    {centers result : List (List Float)} {s s' : Random.Stream}
    (hs : Shaped clusters dimension centers)
    (h : seedMore points missing centers s = some (result, s')) :
    Shaped (clusters + missing) dimension result := by
  induction missing generalizing centers clusters s with
  | zero =>
    obtain ⟨rfl, rfl⟩ : centers = result ∧ s = s' := by simpa [seedMore, pure, StateT.pure] using h
    exact hs
  | succ missing ih =>
    obtain ⟨p, hp, s'', hrest⟩ := seedMore_step hne h
    have hnext : Shaped (clusters + 1) dimension (centers ++ [p]) := by
      constructor
      · simp [hs.1]
      · intro c hc
        cases List.mem_append.1 hc with
        | inl hc => exact hs.2 c hc
        | inr hc =>
          rw [List.mem_singleton.1 hc]
          exact hpoints p hp
    have := ih hnext hrest
    rwa [Nat.add_assoc, Nat.add_comm 1] at this

theorem seed?_shaped {points : Array (List Float)} {dimension clusters : Nat}
    (hne : 0 < points.size) (hpoints : ∀ p ∈ points, p.length = dimension) (hk : 0 < clusters)
    {centers : List (List Float)} {s : Random.Stream} (h : seed? points clusters s = some centers) :
    Shaped clusters dimension centers := by
  obtain ⟨⟨result, s'⟩, hseed, rfl⟩ := Option.map_eq_some_iff.1 h
  have hfirst : points.getD (Random.below64 points.size s).1 [] ∈ points := by
    simp [Array.getD, Random.below64_lt hne s]
  have hone : Shaped 1 dimension [points.getD (Random.below64 points.size s).1 []] :=
    ⟨rfl, fun c hc => List.mem_singleton.1 hc ▸ hpoints _ hfirst⟩
  have := seedMore_shaped hne hpoints hone hseed
  rwa [Nat.add_sub_cancel' hk] at this

/-- A fit that succeeds seeded its centers and moved them for at most so many rounds. -/
theorem fit_eq_ok {rounds clusters : Nat} {points : List (List Float)} {seed : UInt64}
    {c : Clustering} (h : fit rounds points clusters seed = .ok c) :
    points ≠ [] ∧ 0 < clusters ∧ ∃ centers,
      seed? points.toArray clusters (.ofSeed seed) = some centers ∧
      (c.centroids.centers, c.labels) =
        iterate (points.headD []).length points rounds centers (assign centers points) := by
  -- the seeding is a name from here on: unfolding it would run the random stream
  obtain ⟨start, hstart⟩ : ∃ start, start = seed? points.toArray clusters (.ofSeed seed) := ⟨_, rfl⟩
  rw [fit, ← hstart] at h
  rw [← hstart]
  simp only [bind, Except.bind, throw, throwThe, MonadExceptOf.throw, pure, Except.pure] at h
  by_cases hne : points.isEmpty = true
  · simp [hne] at h
  by_cases hk : clusters = 0 ∨ points.length < clusters
  · simp [hne, hk] at h
  rw [if_neg hne, if_neg hk] at h
  cases start with
  | none => simp at h
  | some centers =>
    dsimp only at h
    split at h
    · rename_i centroids hcentroids
      rw [← Except.ok.inj h]
      exact ⟨by simpa using hne, by omega, centers, rfl,
        by rw [Centroids.centers_of_ofList? hcentroids]⟩
    · simp at h

theorem fit_labels_length {rounds clusters : Nat} {points : List (List Float)} {seed : UInt64}
    {c : Clustering} (h : fit rounds points clusters seed = .ok c) :
    c.labels.length = points.length := by
  obtain ⟨-, -, centers, -, hrun⟩ := fit_eq_ok h
  have hlabels : c.labels = _ := congrArg Prod.snd hrun
  rw [hlabels]
  exact iterate_labels_length rounds (by rw [assign, List.length_map])

/-- A fit of points of one dimension has centers of that dimension, as many as were asked for. -/
theorem fit_shaped {rounds dimension clusters : ℕ} {points : List (List Float)} {seed : UInt64}
    {c : Clustering} (hpoints : ∀ p ∈ points, p.length = dimension)
    (h : fit rounds points clusters seed = .ok c) :
    Shaped clusters dimension c.centroids.centers := by
  obtain ⟨hne, hk, centers, hseed, hrun⟩ := fit_eq_ok h
  obtain ⟨p, rest, rfl⟩ := List.exists_cons_of_ne_nil hne
  have hstart := seed?_shaped (by simp) (by simpa using hpoints) hk hseed
  have hfinal := (iterate_labels rounds hstart (rfl : assign centers (p :: rest) = _)).1
  rw [← hpoints p List.mem_cons_self] at hfinal
  rw [← hpoints p List.mem_cons_self]
  have hcenters : c.centroids.centers = _ := congrArg Prod.fst hrun
  rw [hcenters]
  exact hfinal

/-- However a fit of points of one dimension stops, it has as many centers as were asked for, of
that dimension, and one label for each point: the position of the centroid it is routed to, or 0
where it is routed to none. -/
theorem fit_labels_agree (rounds : Nat) (points : List (List Float)) (dimension clusters : Nat)
    (seed : UInt64) (c : Clustering) (hpoints : ∀ p ∈ points, p.length = dimension)
    (h : fit rounds points clusters seed = .ok c) :
    c.centroids.count = clusters ∧ (∀ center ∈ c.centroids.centers, center.length = dimension) ∧
      c.labels.length = points.length ∧ (∀ label ∈ c.labels, label < clusters) ∧
      c.labels = points.map fun p => (c.centroids.closest? p).getD 0 := by
  obtain ⟨hne, hk, centers, hseed, hrun⟩ := fit_eq_ok h
  have hshaped : Shaped clusters dimension centers :=
    seed?_shaped (by simpa [List.length_pos_iff] using hne) (by simpa using hpoints) hk hseed
  have hdimension : (points.headD []).length = dimension := by
    obtain ⟨p, rest, rfl⟩ := List.exists_cons_of_ne_nil hne
    exact hpoints p List.mem_cons_self
  obtain ⟨hfinal, hlabels⟩ := iterate_labels rounds hshaped (rfl : assign centers points = _)
  rw [← hdimension, ← hrun] at hfinal hlabels
  dsimp only at hfinal hlabels
  have hcenters : c.centroids.centers ≠ [] := c.centroids.nonempty
  refine ⟨hfinal.1, hdimension ▸ hfinal.2, ?_, ?_, ?_⟩
  · rw [hlabels, assign, List.length_map]
  · intro label hlabel
    rw [hlabels, assign] at hlabel
    obtain ⟨p, -, rfl⟩ := List.mem_map.1 hlabel
    rw [← hfinal.1]
    exact labelOf_lt hcenters p
  · rw [hlabels, assign]
    exact List.map_congr_left fun p _ => labelOf_eq _ p

/-- Three points on a line in two clusters; the point that is not a number has label 0. -/
theorem fit_labels_agree_line :
    ∃ c, fit 3 [[0.0], [0.0 / 0.0], [4.0]] 2 7 = .ok c ∧ c.labels = [1, 0, 1] ∧
      c.centroids.count = 2 ∧ (∀ center ∈ c.centroids.centers, center.length = 1) ∧
      c.labels = [[0.0], [0.0 / 0.0], [4.0]].map fun p => (c.centroids.closest? p).getD 0 := by
  have hrun : (fit 3 [[0.0], [0.0 / 0.0], [4.0]] 2 7).toOption.map Clustering.labels =
      some [1, 0, 1] := by decide +kernel
  obtain ⟨c, hc, hlabels⟩ := Option.map_eq_some_iff.1 hrun
  have hok : fit 3 [[0.0], [0.0 / 0.0], [4.0]] 2 7 = .ok c := by
    revert hc
    generalize fit 3 [[0.0], [0.0 / 0.0], [4.0]] 2 7 = result
    intro hc
    cases result with
    | error e => cases hc
    | ok d => exact congrArg _ (Option.some.inj hc)
  obtain ⟨hcount, hdimension, -, -, hagree⟩ :=
    fit_labels_agree 3 [[0.0], [0.0 / 0.0], [4.0]] 1 2 7 c (by simp) hok
  exact ⟨c, hok, hlabels, hcount, hdimension, hagree⟩

end Lloyd

end ClauseTriage
