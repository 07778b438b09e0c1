import ClauseTriage.Proofs.Cluster.Labels
import ClauseTriage.Proofs.Groups
import ClauseTriage.Proofs.Table.Rows
import ClauseTriage.Run.Plan

/-!
# Where the rows of a run go

A run counts rows anew three times: a sampled row by its position in the sample, the rows of a
cluster by those positions, and the sides of a split by the rows of the cluster. No step loses or
repeats a row, so every sampled row ends up on one side of one cluster.
-/
namespace ClauseTriage.Run

/-- What a run has made of a dataset when training begins. -/
structure Ready where
  /-- Rows of the dataset. -/
  sampled : List ℕ
  /-- The sampled rows alone; its rows are positions in the sample. -/
  data : Dataset
  clustering : Clustering

/-- The part of a run before training. -/
def ready? (s : Settings) (clusterFitter : ClusterFitter) (d : Dataset) :
    Except RunError Ready := do
  orFail .settings s.check
  let sampled := d.sample s.sampleFraction s.seed
  let data ← orFail .dataset (d.subset? sampled)
  let shapes := FeatureFilter.shapes data.names
  let points ← orFail .dataset (data.rows? shapes (List.range data.size))
  let clustering ← orFail .fit (clusterFitter points s.clusters s.seed)
  orFail .fit (checkLabels s.clusters clustering.labels)
  return ⟨sampled, data, clustering⟩

/-- A side of a split. -/
inductive Side where
  | train
  | test
  deriving DecidableEq, Repr

/-- The rows of a side. -/
def Side.of (split : Split) : Side → List ℕ
  | train => split.train
  | test => split.test

namespace Ready

variable (r : Ready) (s : Settings) (fitter : Fitter) (cluster : ℕ)

def trainer : Trainer := ⟨s, fitter, r.data, FeatureFilter.candidates ⟨s.dropRdb1⟩ r.data.names⟩

/-- Positions in the sample of the rows of a cluster. -/
def members : List ℕ := membersOf r.clustering.labels cluster

/-- The split that a cluster is trained and tested with. -/
def split : Split := ((r.trainer s fitter).holdout cluster (r.members cluster)).split

/-- Rows of the dataset on a side of a cluster. -/
def rowsOn (side : Side) : List ℕ :=
  (side.of (r.split s fitter cluster)).filterMap fun i => r.sampled[i]?

end Ready

section

variable {s : Settings} {fitter : Fitter} {clusterFitter : ClusterFitter} {d : Dataset}

/-- A run is what comes before training, and the training of every cluster. -/
theorem report?_eq : report? s fitter clusterFitter d = do
    let r ← ready? s clusterFitter d
    let clusters ← trainAll? (r.trainer s fitter) r.clustering.labels
    return ⟨clusters, r.clustering.centroids, FeatureFilter.shapes r.data.names,
      if s.checkValues then d.issues.length else 0⟩ := by
  simp only [report?, ready?, bind_assoc, pure_bind]
  rfl

/-- A report has the centroids and the shapes of the part before training. -/
theorem report?_eq_ok_routing {report : Report} (h : report? s fitter clusterFitter d = .ok report) :
    ∃ r, ready? s clusterFitter d = .ok r ∧
      trainAll? (r.trainer s fitter) r.clustering.labels = .ok report.clusters ∧
      report.centroids = r.clustering.centroids ∧
      report.shapes = FeatureFilter.shapes r.data.names := by
  rw [report?_eq] at h
  simp only [bind_eq_ok_iff] at h
  obtain ⟨r, hr, clusters, hclusters, hreport⟩ := h
  obtain rfl := Except.ok.inj hreport
  exact ⟨r, hr, hclusters, rfl, rfl⟩

theorem report?_eq_ok {report : Report} (h : report? s fitter clusterFitter d = .ok report) :
    ∃ r, ready? s clusterFitter d = .ok r ∧
      trainAll? (r.trainer s fitter) r.clustering.labels = .ok report.clusters := by
  obtain ⟨r, hr, hclusters, -, -⟩ := report?_eq_ok_routing h
  exact ⟨r, hr, hclusters⟩

/-- A plan holds the report, and its steps are headers, graphs and trace. -/
theorem plan?_eq_ok {plan : Plan} (h : plan? s fitter clusterFitter d = .ok plan) :
    report? s fitter clusterFitter d = .ok plan.report ∧
      ∃ headers, planHeaders? s plan.report = .ok headers ∧
        plan.steps = headers ++ planGraphs s plan.report ++ planTrace s plan.report := by
  simp only [plan?, bind_eq_ok_iff] at h
  obtain ⟨report, hreport, headers, hheaders, hplan⟩ := h
  obtain rfl := Except.ok.inj hplan
  exact ⟨hreport, headers, hheaders, rfl⟩

end

/-! ## Members of clusters -/

section

variable {labels : List ℕ} {clusters cluster : ℕ}

@[simp] theorem mem_membersOf {i : ℕ} : i ∈ membersOf labels cluster ↔ labels[i]? = some cluster := by
  simp [membersOf, List.mk_mem_zipIdx_iff_getElem?]

theorem zipIdx_map_snd (labels : List ℕ) :
    labels.zipIdx.map Prod.snd = List.range labels.length := by
  simp [List.range_eq_range']

/-- Members are counted upwards. -/
theorem membersOf_pairwise (labels : List ℕ) (cluster : ℕ) :
    (membersOf labels cluster).Pairwise (· < ·) := by
  have hsublist : (membersOf labels cluster).Sublist (List.range labels.length) := by
    rw [← zipIdx_map_snd]
    exact List.filter_sublist.map Prod.snd
  exact List.pairwise_lt_range.sublist hsublist

/-- The members of the clusters are all positions. -/
theorem flatMap_membersOf_perm (h : ∀ label ∈ labels, label < clusters) :
    ((List.range clusters).flatMap (membersOf labels)).Perm (List.range labels.length) := by
  have hkeys : ∀ e ∈ labels.zipIdx, e.1 ∈ List.range clusters := by
    intro e he
    exact List.mem_range.2 (h e.1 (List.fst_mem_of_mem_zipIdx he))
  -- labels with their positions are grouped by label; the members are the positions
  have hgroups := (flatMap_filter_perm List.nodup_range Prod.fst hkeys).map Prod.snd
  rwa [List.map_flatMap, zipIdx_map_snd] at hgroups

theorem checkLabels_eq_ok (h : checkLabels clusters labels = .ok ()) :
    ∀ label ∈ labels, label < clusters := by
  unfold checkLabels at h
  split at h
  · cases h
  · rename_i hnone
    intro label hlabel
    obtain ⟨i, hi⟩ := List.mem_iff_getElem?.1 hlabel
    have := List.find?_eq_none.1 hnone (label, i) (List.mk_mem_zipIdx_iff_getElem?.2 hi)
    simpa using this

end

/-! ## Before training -/

@[simp] theorem orFail_eq_ok {ε δ α : Type} {wrap : ε → δ} {x : Except ε α} {a : α} :
    orFail wrap x = .ok a ↔ x = .ok a := by
  cases x <;> simp [orFail]

/-- What a run does before training. -/
theorem ready?_eq_ok {s : Settings} {clusterFitter : ClusterFitter} {d : Dataset} {r : Ready}
    (h : ready? s clusterFitter d = .ok r) :
    s.check = .ok () ∧ r.sampled = d.sample s.sampleFraction s.seed ∧
      d.subset? r.sampled = .ok r.data ∧
      (∃ points,
        r.data.rows? (FeatureFilter.shapes r.data.names) (List.range r.data.size) = .ok points ∧
        clusterFitter points s.clusters s.seed = .ok r.clustering) ∧
      checkLabels s.clusters r.clustering.labels = .ok () := by
  unfold ready? at h
  simp only [bind_eq_ok_iff, orFail_eq_ok] at h
  obtain ⟨⟨⟩, hcheck, data, hdata, points, hpoints, clustering, hfit, ⟨⟩, hlabels, hr⟩ := h
  obtain rfl := Except.ok.inj hr
  exact ⟨hcheck, rfl, hdata, ⟨points, hpoints, hfit⟩, hlabels⟩

namespace Ready

/-- What holds of a run of a dataset when training begins. -/
structure Valid (s : Settings) (d : Dataset) (r : Ready) : Prop where
  nodup : r.sampled.Nodup
  lt_size : ∀ row ∈ r.sampled, row < d.size
  hasRows : d.HasRows r.sampled r.data
  labels_length : r.clustering.labels.length = r.sampled.length
  labels_lt : ∀ label ∈ r.clustering.labels, label < s.clusters

variable {s : Settings} {d : Dataset} {r : Ready}

theorem valid_of_ready? {rounds : ℕ} (h : ready? s (Lloyd.fit rounds) d = .ok r) :
    r.Valid s d := by
  obtain ⟨-, hsampled, hdata, ⟨points, hpoints, hfit⟩, hlabels⟩ := ready?_eq_ok h
  have hrows := Dataset.subset?_hasRows hdata
  refine ⟨hsampled ▸ d.sample_nodup _ _, ?_, hrows, ?_, checkLabels_eq_ok hlabels⟩
  · intro row hrow
    rw [hsampled] at hrow
    exact Dataset.lt_size_of_mem_sample hrow
  · calc r.clustering.labels.length
      _ = points.length := Lloyd.fit_labels_length hfit
      _ = r.data.size := by rw [Dataset.rows?_length hpoints, List.length_range]
      _ = _ := hrows.size

namespace Valid

theorem lt_clusters (h : r.Valid s d) {cluster i : ℕ} (hi : i ∈ r.members cluster) :
    cluster < s.clusters :=
  h.labels_lt cluster (List.mem_of_getElem? (mem_membersOf.1 hi))

theorem members_lt (h : r.Valid s d) {cluster i : ℕ} (hi : i ∈ r.members cluster) :
    i < r.sampled.length := by
  rw [← h.labels_length]
  exact (List.getElem?_eq_some_iff.1 (mem_membersOf.1 hi)).1

theorem flatMap_members_perm (h : r.Valid s d) :
    ((List.range s.clusters).flatMap r.members).Perm (List.range r.sampled.length) := by
  rw [← h.labels_length]
  exact flatMap_membersOf_perm h.labels_lt

theorem sum_members_length (h : r.Valid s d) :
    ((List.range s.clusters).map fun cluster => (r.members cluster).length).sum =
      r.sampled.length := by
  rw [← List.length_flatMap, h.flatMap_members_perm.length_eq, List.length_range]

/-- Every sampled row is in one cluster, that of its label. -/
theorem existsUnique_cluster (h : r.Valid s d) {i : ℕ} (hi : i < r.sampled.length) :
    ∃! cluster, cluster < s.clusters ∧ i ∈ r.members cluster := by
  rw [← h.labels_length] at hi
  have hlabel := List.getElem?_eq_getElem hi
  refine ⟨r.clustering.labels[i], ⟨h.labels_lt _ (List.getElem_mem hi), mem_membersOf.2 hlabel⟩, ?_⟩
  rintro cluster ⟨-, hmem⟩
  rw [members, mem_membersOf, hlabel] at hmem
  exact (Option.some.inj hmem).symm

end Valid

/-! ## Sides -/

variable {fitter : Fitter} {cluster : ℕ}

theorem split_perm (r : Ready) (s : Settings) (fitter : Fitter) (cluster : ℕ) :
    ((r.split s fitter cluster).train ++ (r.split s fitter cluster).test).Perm
      (r.members cluster) :=
  Split.ofRows_perm _ _ _

theorem mem_members_iff {i : ℕ} :
    i ∈ r.members cluster ↔ ∃ side : Side, i ∈ side.of (r.split s fitter cluster) := by
  rw [← (r.split_perm s fitter cluster).mem_iff, List.mem_append]
  constructor
  · rintro (h | h)
    · exact ⟨.train, h⟩
    · exact ⟨.test, h⟩
  · rintro ⟨_ | _, h⟩
    · exact .inl h
    · exact .inr h

/-- A row has one side, since no row is a member twice. -/
theorem side_unique {i : ℕ} {a b : Side} (ha : i ∈ a.of (r.split s fitter cluster))
    (hb : i ∈ b.of (r.split s fitter cluster)) : a = b := by
  have hmembers : (r.members cluster).Nodup := (membersOf_pairwise _ _).imp Nat.ne_of_lt
  have hsides := List.disjoint_of_nodup_append
    ((r.split_perm s fitter cluster).nodup_iff.2 hmembers)
  cases a <;> cases b
  · rfl
  · exact (hsides ha hb).elim
  · exact (hsides hb ha).elim
  · rfl

theorem mem_rowsOn {side : Side} {row : ℕ} : row ∈ r.rowsOn s fitter cluster side ↔
    ∃ i ∈ side.of (r.split s fitter cluster), r.sampled[i]? = some row :=
  List.mem_filterMap

theorem filterMap_range_getElem? {α : Type} (xs : List α) :
    (List.range xs.length).filterMap (fun i => xs[i]?) = xs := by
  induction xs with
  | nil => rfl
  | cons x xs ih => simp [List.range_succ_eq_map, List.filterMap_map, ih]

namespace Valid

variable (fitter)

/-- The sides of all clusters hold the sample in another order. -/
theorem rowsOn_perm (h : r.Valid s d) :
    ((List.range s.clusters).flatMap fun cluster =>
      r.rowsOn s fitter cluster .train ++ r.rowsOn s fitter cluster .test).Perm r.sampled := by
  have hcluster (cluster : ℕ) : (r.rowsOn s fitter cluster .train ++
      r.rowsOn s fitter cluster .test).Perm
        ((r.members cluster).filterMap fun i => r.sampled[i]?) := by
    simp only [rowsOn, Side.of, ← List.filterMap_append]
    exact (r.split_perm s fitter cluster).filterMap _
  -- from positions in the sample back to rows of the dataset
  have hall := h.flatMap_members_perm.filterMap fun i => r.sampled[i]?
  rw [List.filterMap_flatMap, filterMap_range_getElem?] at hall
  exact (List.Perm.flatMap_left _ fun cluster _ => hcluster cluster).trans hall

/-- A row of the dataset is used in one place: its position in the sample tells the cluster, and
that the side. -/
theorem use_unique (h : r.Valid s d) {row a b : ℕ} {x y : Side}
    (ha : row ∈ r.rowsOn s fitter a x) (hb : row ∈ r.rowsOn s fitter b y) : (a, x) = (b, y) := by
  obtain ⟨i, hi, hrow⟩ := mem_rowsOn.1 ha
  obtain ⟨j, hj, hrow'⟩ := mem_rowsOn.1 hb
  have hai := mem_members_iff.2 ⟨x, hi⟩
  have hbj := mem_members_iff.2 ⟨y, hj⟩
  obtain rfl : i = j := (List.getElem?_inj (h.members_lt hai) h.nodup).1 (hrow.trans hrow'.symm)
  obtain rfl : a = b := (h.existsUnique_cluster (h.members_lt hai)).unique
    ⟨h.lt_clusters hai, hai⟩ ⟨h.lt_clusters hbj, hbj⟩
  rw [side_unique hi hj]

theorem existsUnique_use (h : r.Valid s d) {row : ℕ} (hrow : row ∈ r.sampled) :
    ∃! use : ℕ × Side, use.1 < s.clusters ∧ row ∈ r.rowsOn s fitter use.1 use.2 := by
  obtain ⟨i, hi⟩ := List.mem_iff_getElem?.1 hrow
  obtain ⟨cluster, ⟨hcluster, hmem⟩, -⟩ :=
    h.existsUnique_cluster (List.getElem?_eq_some_iff.1 hi).1
  obtain ⟨side, hside⟩ := mem_members_iff.1 hmem
  have huse := mem_rowsOn.2 ⟨i, hside, hi⟩
  refine ⟨(cluster, side), ⟨hcluster, huse⟩, ?_⟩
  rintro ⟨cluster', side'⟩ ⟨-, huse'⟩
  exact h.use_unique fitter huse' huse

end Valid

end Ready

/-! ## Reports -/

section

variable {t : Trainer}

theorem train?_counts {cluster : ℕ} {rows : List ℕ} {report : ClusterReport}
    (h : t.train? cluster rows = .ok report) :
    report.cluster = cluster ∧ report.rows = rows.length := by
  unfold Trainer.train? at h
  simp only [bind_eq_ok_iff] at h
  obtain ⟨_, -, _, -, _, -, _, -, _, -, _, -, _, -, _, -, h⟩ := h
  obtain rfl := Except.ok.inj h
  exact ⟨rfl, rfl⟩

/-- The clusters are reported in turn, each with the number of its members. -/
theorem trainAll?_counts {labels : List ℕ} {reports : List ClusterReport}
    (h : trainAll? t labels = .ok reports) :
    reports.map ClusterReport.cluster = List.range t.settings.clusters ∧
      reports.map ClusterReport.rows =
        (List.range t.settings.clusters).map fun cluster => (membersOf labels cluster).length := by
  have hcounts : List.Forall₂
      (fun cluster (report : ClusterReport) => report.cluster = cluster ∧
        report.rows = (membersOf labels cluster).length)
      (List.range t.settings.clusters) reports := by
    refine (mapM_eq_ok_iff.1 h).imp fun cluster report hreport => ?_
    dsimp only at hreport
    split at hreport
    · cases hreport
    · exact train?_counts hreport
  constructor
  · rw [← List.map_id (List.range t.settings.clusters)]
    exact map_eq_map_of_forall₂ (hcounts.flip.imp fun _ _ h => h.1)
  · exact map_eq_map_of_forall₂ (hcounts.flip.imp fun _ _ h => h.2)

end

/-- Whatever rows a run samples when it reaches training, none is lost or repeated. The sample has
distinct rows of the dataset, and the data are those rows. Each position in the sample is listed by
one cluster, whose list ascends; the sides of a cluster's split are that list in another order. So
each sampled row is used by one cluster on one side, and no row is trained on and tested on. A run
that succeeds reports the clusters in turn, with as many rows in all as were sampled. -/
theorem rows_used_once (s : Settings) (fitter : Fitter) (rounds : ℕ) (d : Dataset) (r : Ready)
    (h : ready? s (Lloyd.fit rounds) d = .ok r) :
    (r.sampled.Nodup ∧ ∀ row ∈ r.sampled, row < d.size) ∧
    d.HasRows r.sampled r.data ∧
    (∀ cluster, (r.members cluster).Pairwise (· < ·) ∧
      ∀ i ∈ r.members cluster, i < r.sampled.length) ∧
    (∀ i < r.sampled.length, ∃! cluster, cluster < s.clusters ∧ i ∈ r.members cluster) ∧
    (∀ cluster, ((r.split s fitter cluster).train ++ (r.split s fitter cluster).test).Perm
      (r.members cluster)) ∧
    (∀ row ∈ r.sampled, ∃! use : ℕ × Side,
      use.1 < s.clusters ∧ row ∈ r.rowsOn s fitter use.1 use.2) ∧
    (∀ a b, (r.rowsOn s fitter a .train).Disjoint (r.rowsOn s fitter b .test)) ∧
    ((List.range s.clusters).flatMap fun cluster =>
      r.rowsOn s fitter cluster .train ++ r.rowsOn s fitter cluster .test).Perm r.sampled ∧
    ∀ report, report? s fitter (Lloyd.fit rounds) d = .ok report →
      report.clusters.map ClusterReport.cluster = List.range s.clusters ∧
      report.clusters.map ClusterReport.rows =
        (List.range s.clusters).map (fun cluster => (r.members cluster).length) ∧
      (report.clusters.map ClusterReport.rows).sum = r.sampled.length := by
  have hvalid := Ready.valid_of_ready? h
  refine ⟨⟨hvalid.nodup, hvalid.lt_size⟩, hvalid.hasRows, ?_, ?_, r.split_perm s fitter, ?_, ?_,
    hvalid.rowsOn_perm fitter, ?_⟩
  · exact fun cluster => ⟨membersOf_pairwise _ _, fun _ => hvalid.members_lt⟩
  · exact fun _ => hvalid.existsUnique_cluster
  · exact fun _ => hvalid.existsUnique_use fitter
  · intro a b row htrain htest
    have huse := hvalid.use_unique fitter htrain htest
    cases huse
  · intro report hreport
    obtain ⟨r', hr', hclusters⟩ := report?_eq_ok hreport
    obtain rfl : r = r' := Except.ok.inj (h.symm.trans hr')
    obtain ⟨hcluster, hrows⟩ := trainAll?_counts hclusters
    exact ⟨hcluster, hrows, hrows ▸ hvalid.sum_members_length⟩

/-- Five rows of two shapes. -/
def fiveRows : Dataset :=
  ⟨["szfeat_cur.size", "cl.glue"],
    [#[0.0, 0.0, 9.0, 9.0, 9.0], #[1.0, 5.0, 2.0, 6.0, 3.0]], #[0, 1, 0, 1, 0]⟩

/-- A run of two clusters on four rows of five, half of them for tests. -/
def fourOfFive : Settings :=
  { clusters := 2, sampleFraction := 0.8, testFraction := 0.5, seed := 3, family := .tree,
    minSplit := 2, fixedFeatures := some ["cl.glue"] }

theorem rows_used_once_five :
    ∃ r report, ready? fourOfFive (Lloyd.fit 3) fiveRows = .ok r ∧
      report? fourOfFive (TreeFitter.ofSettings fourOfFive).fitter (Lloyd.fit 3) fiveRows =
        .ok report ∧
      r.sampled.Nodup ∧ r.sampled.length = 4 ∧
      (∀ i < r.sampled.length, ∃! cluster, cluster < 2 ∧ i ∈ r.members cluster) ∧
      (∀ row ∈ r.sampled, ∃! use : ℕ × Side, use.1 < 2 ∧
        row ∈ r.rowsOn fourOfFive (TreeFitter.ofSettings fourOfFive).fitter use.1 use.2) ∧
      report.clusters.map ClusterReport.cluster = [0, 1] ∧
      report.clusters.map ClusterReport.rows = [2, 2] := by
  have hrun : (report? fourOfFive (TreeFitter.ofSettings fourOfFive).fitter (Lloyd.fit 3)
      fiveRows).toOption.map (fun report => report.clusters.map ClusterReport.rows) =
        some [2, 2] := by decide +kernel
  obtain ⟨report, hok, hcounts⟩ := exists_of_toOption_map hrun
  obtain ⟨r, hr, -⟩ := report?_eq_ok hok
  obtain ⟨⟨hnodup, -⟩, -, -, hcluster, -, huse, -, -, hreports⟩ :=
    rows_used_once fourOfFive (TreeFitter.ofSettings fourOfFive).fitter 3 fiveRows r hr
  obtain ⟨hclusters, -, hsum⟩ := hreports report hok
  rw [hcounts] at hsum
  exact ⟨r, report, hr, hok, hnodup, hsum.symm, hcluster, huse, hclusters, hcounts⟩

end ClauseTriage.Run
