import ClauseTriage.Fit.Cart
import ClauseTriage.Proofs.Attempts
import ClauseTriage.Proofs.Random.Order

/-!
# Splits of samples

What the steps of a growing tree give: label counts, a split that lowers the impurity, and the two
sides of a split. None of them fails where every sample has a label and all its values.
-/
namespace ClauseTriage.Cart

open ClauseTriage.Random Scalar

variable {α : Type}

namespace Training

variable {t : Training α} {samples : List ℕ}

/-- Every sample has a label and a value of each feature. -/
def Complete (t : Training α) (width : ℕ) (samples : List ℕ) : Prop :=
  ∀ i ∈ samples, (∃ l, t.label? i = some l) ∧ ∀ f < width, ∃ v, t.value? f i = some v

/-- The numbers of samples of both labels. -/
def tally (t : Training α) (samples : List ℕ) : Weights ℕ :=
  ⟨samples.countP fun i => t.label? i == some 0, samples.countP fun i => t.label? i == some 1⟩

theorem Complete.mono {width : ℕ} {others : List ℕ} (h : t.Complete width samples)
    (hsub : others ⊆ samples) : t.Complete width others :=
  fun i hi => h i (hsub hi)

theorem label?_eq {i : ℕ} {l : Label} (h : t.label? i = some l) : l = 0 ∨ l = 1 := by
  obtain ⟨m, -, hm⟩ := Option.bind_eq_some_iff.1 h
  split at hm
  · rename_i hle
    obtain rfl := Option.some.inj hm
    exact Nat.le_one_iff_eq_zero_or_eq_one.1 hle
  · cases hm

theorem tally_cons (i : ℕ) (samples : List ℕ) :
    t.tally (i :: samples) =
      ⟨(t.tally samples).discard + if t.label? i == some 0 then 1 else 0,
        (t.tally samples).keep + if t.label? i == some 1 then 1 else 0⟩ := by
  simp only [tally, List.countP_cons]

/-- Every sample has one of two labels. -/
theorem tally_total (h : ∀ i ∈ samples, ∃ l, t.label? i = some l) :
    (t.tally samples).discard + (t.tally samples).keep = samples.length := by
  induction samples with
  | nil => rfl
  | cons i samples ih =>
    obtain ⟨⟨l, hl⟩, hrest⟩ := List.forall_mem_cons.1 h
    have := ih hrest
    rw [tally_cons, List.length_cons]
    rcases label?_eq hl with rfl | rfl <;> simp [hl] <;> omega

end Training

variable {t : Training α} {samples : List ℕ}

theorem foldl_addLabel (counts : Weights ℕ) (labels : List Label) :
    labels.foldl addLabel counts =
      ⟨counts.discard + labels.countP (· == 0), counts.keep + labels.countP (· != 0)⟩ := by
  induction labels generalizing counts with
  | nil => rfl
  | cons l labels ih =>
    rw [List.foldl_cons, ih, addLabel]
    split
    · rename_i hl
      simp [hl]
      omega
    · rename_i hl
      simp [hl]
      omega

theorem mapM_label? (h : ∀ i ∈ samples, ∃ l, t.label? i = some l) :
    samples.mapM t.label? = some (samples.map fun i => (t.label? i).getD 0) := by
  apply mapM_eq_some_map
  intro i hi
  obtain ⟨l, hl⟩ := h i hi
  simp [hl]

theorem countLabels_eq_tally (h : ∀ i ∈ samples, ∃ l, t.label? i = some l) :
    countLabels (samples.map fun i => (t.label? i).getD 0) = t.tally samples := by
  rw [countLabels, foldl_addLabel, Training.tally, List.countP_map, List.countP_map]
  congr 1
  · rw [Nat.zero_add]
    apply List.countP_congr
    intro i hi
    obtain ⟨l, hl⟩ := h i hi
    simp [hl]
  · rw [Nat.zero_add]
    apply List.countP_congr
    intro i hi
    obtain ⟨l, hl⟩ := h i hi
    rcases Training.label?_eq hl with rfl | rfl <;> simp [hl]

/-- Counting gives the tally where each sample has a label. -/
theorem counts?_eq_some_iff {counts : Weights ℕ} :
    counts? t samples = some counts ↔
      (∀ i ∈ samples, ∃ l, t.label? i = some l) ∧ counts = t.tally samples := by
  have hcounts (h : ∀ i ∈ samples, ∃ l, t.label? i = some l) :
      counts? t samples = some (t.tally samples) := by
    rw [counts?, mapM_label? h, Option.map_some, countLabels_eq_tally h]
  constructor
  · intro h
    obtain ⟨labels, hlabels, -⟩ := Option.map_eq_some_iff.1 h
    have hall := exists_of_mapM_eq_some hlabels
    rw [hcounts hall] at h
    exact ⟨hall, (Option.some.inj h).symm⟩
  · rintro ⟨h, rfl⟩
    exact hcounts h

variable [Scalar α]

/-- A sample is on the low side of a test. -/
def goesLow (t : Training α) (feature : ℕ) (threshold : α) (i : ℕ) : Bool :=
  (t.value? feature i).any fun v => le v threshold

/-- The sides of a split are told by its test, where each sample has a value. -/
theorem partition?_eq_some_iff {s : Split α} {low high : List ℕ} :
    partition? t s samples = some (low, high) ↔
      (∀ i ∈ samples, ∃ v, t.value? s.feature i = some v) ∧
        low = samples.filter (goesLow t s.feature s.threshold) ∧
        high = samples.filter fun i => !goesLow t s.feature s.threshold i := by
  have hsides (h : ∀ i ∈ samples, ∃ v, t.value? s.feature i = some v) :
      partition? t s samples = some (samples.filter (goesLow t s.feature s.threshold),
        samples.filter fun i => !goesLow t s.feature s.threshold i) := by
    have hmarked : (samples.mapM fun i => do
        return (i, le (← t.value? s.feature i) s.threshold)) =
          some (samples.map fun i => (i, goesLow t s.feature s.threshold i)) := by
      apply mapM_eq_some_map
      intro i hi
      obtain ⟨v, hv⟩ := h i hi
      simp [hv, goesLow]
    rw [partition?, hmarked]
    simp [List.filter_map, Function.comp_def]
  constructor
  · intro h
    obtain ⟨marked, hmarked, -⟩ := Option.bind_eq_some_iff.1 h
    have hall : ∀ i ∈ samples, ∃ v, t.value? s.feature i = some v := by
      intro i hi
      obtain ⟨m, hm⟩ := exists_of_mapM_eq_some hmarked i hi
      obtain ⟨v, hv, -⟩ := Option.bind_eq_some_iff.1 hm
      exact ⟨v, hv⟩
    rw [hsides hall] at h
    obtain ⟨rfl, rfl⟩ := Prod.mk.inj (Option.some.inj h)
    exact ⟨hall, rfl, rfl⟩
  · rintro ⟨h, rfl, rfl⟩
    exact hsides h

/-- A split of samples stands between two finite values of its feature, the smaller one first. -/
def Split.Between (s : Split α) (t : Training α) (samples : List ℕ) : Prop :=
  ∃ a b, isFinite a = true ∧ isFinite b = true ∧ lt a b = true ∧ s.threshold = midpoint a b ∧
    (∃ i ∈ samples, t.value? s.feature i = some a) ∧ ∃ j ∈ samples, t.value? s.feature j = some b

theorem of_mem_boundaries {feature minLeaf : ℕ} {total low : Weights ℕ} {entries : List (α × Label)}
    {s : Split α} (h : s ∈ boundaries feature minLeaf total low entries) :
    s.feature = feature ∧ ∃ x ∈ entries, ∃ y ∈ entries, isFinite x.1 = true ∧
      isFinite y.1 = true ∧ lt x.1 y.1 = true ∧ s.threshold = midpoint x.1 y.1 := by
  fun_induction boundaries feature minLeaf total low entries with
  | case1 low a l b m rest low' high later hsplit ih =>
    rcases List.mem_cons.1 h with rfl | h
    · simp only [Bool.and_eq_true] at hsplit
      obtain ⟨⟨⟨⟨ha, hb⟩, hlt⟩, -⟩, -⟩ := hsplit
      exact ⟨rfl, (a, l), List.mem_cons_self, (b, m), List.mem_cons_of_mem _ List.mem_cons_self,
        ha, hb, hlt, rfl⟩
    · obtain ⟨hfeature, x, hx, y, hy, hbetween⟩ := ih h
      exact ⟨hfeature, x, List.mem_cons_of_mem _ hx, y, List.mem_cons_of_mem _ hy, hbetween⟩
  | case2 low a l b m rest low' high later hsplit ih =>
    obtain ⟨hfeature, x, hx, y, hy, hbetween⟩ := ih h
    exact ⟨hfeature, x, List.mem_cons_of_mem _ hx, y, List.mem_cons_of_mem _ hy, hbetween⟩
  | case3 low entries hshort => cases h

/-- The splits of a feature stand between values of the samples. -/
theorem of_mem_featureSplits? {minLeaf feature : ℕ} {splits : List (Split α)} {s : Split α}
    (h : featureSplits? t minLeaf samples feature = some splits) (hs : s ∈ splits) :
    s.feature = feature ∧ s.Between t samples := by
  obtain ⟨entries, hentries, hsplits⟩ := Option.bind_eq_some_iff.1 h
  obtain rfl := Option.some.inj hsplits
  obtain ⟨rfl, x, hx, y, hy, hxf, hyf, hlt, hthreshold⟩ := of_mem_boundaries hs
  have hsample : ∀ e ∈ entries, ∃ i ∈ samples, t.value? s.feature i = some e.1 := by
    intro e he
    obtain ⟨i, hi, hvalue⟩ := exists_of_mem_mapM hentries e he
    obtain ⟨v, hv, hlabel⟩ := Option.bind_eq_some_iff.1 hvalue
    obtain ⟨l, -, hpair⟩ := Option.bind_eq_some_iff.1 hlabel
    obtain rfl := Option.some.inj hpair
    exact ⟨i, hi, hv⟩
  exact ⟨rfl, x.1, y.1, hxf, hyf, hlt, hthreshold, hsample x (List.mem_mergeSort.1 hx),
    hsample y (List.mem_mergeSort.1 hy)⟩

/-- The value of a feature, which known samples have. -/
def Training.valueAt (t : Training α) (feature i : ℕ) : α := (t.value? feature i).getD zero

/-- What the search for a split reads of a sample. -/
def Training.entry (t : Training α) (feature i : ℕ) : α × Label :=
  (t.valueAt feature i, (t.label? i).getD 0)

/-- Every sample has a label and a value of the feature. -/
def Training.Known (t : Training α) (feature : ℕ) (samples : List ℕ) : Prop :=
  ∀ i ∈ samples, (∃ l, t.label? i = some l) ∧ ∃ v, t.value? feature i = some v

theorem entries_of_known {feature : ℕ} (hknown : t.Known feature samples) :
    (samples.mapM fun s => do return (← t.value? feature s, ← t.label? s)) =
      some (samples.map (t.entry feature)) := by
  apply mapM_eq_some_map
  intro i hi
  obtain ⟨⟨l, hl⟩, v, hv⟩ := hknown i hi
  simp [Training.entry, Training.valueAt, hl, hv]

theorem exists_featureSplits? {width : ℕ} (h : t.Complete width samples) (minLeaf : ℕ)
    {feature : ℕ} (hf : feature < width) :
    ∃ splits, featureSplits? t minLeaf samples feature = some splits := by
  have hknown : t.Known feature samples := fun i hi => ⟨(h i hi).1, (h i hi).2 feature hf⟩
  rw [featureSplits?, entries_of_known hknown]
  exact ⟨_, rfl⟩

/-- A split takes the place of the best one so far only when it lowers the impurity. -/
theorem better_eq (parent : α) (best : Option (Split α)) (s : Split α) :
    better parent best s = best ∨
      better parent best s = some s ∧ lt s.impurity parent = true := by
  obtain ⟨bound, hbound⟩ : ∃ bound, better parent best s =
      if lt s.impurity parent && lt s.impurity bound then some s else best := ⟨_, rfl⟩
  rw [hbound]
  split
  · rename_i hbetter
    exact .inr ⟨rfl, (Bool.and_eq_true_iff.1 hbetter).1⟩
  · exact .inl rfl

theorem foldl_better {parent : α} {init : Option (Split α)} {splits : List (Split α)} {s : Split α}
    (h : splits.foldl (better parent) init = some s) :
    init = some s ∨ s ∈ splits ∧ lt s.impurity parent = true := by
  induction splits generalizing init with
  | nil => exact .inl h
  | cons first splits ih =>
    rcases ih h with h | ⟨hmem, hlt⟩
    · rcases better_eq parent init first with hkeep | ⟨htake, hlt⟩
      · exact .inl (hkeep.symm.trans h)
      · obtain rfl := Option.some.inj (htake.symm.trans h)
        exact .inr ⟨List.mem_cons_self, hlt⟩
    · exact .inr ⟨List.mem_cons_of_mem _ hmem, hlt⟩

/-- The best split tests one of the features and lowers the impurity. -/
theorem bestSplit?_spec {minLeaf : ℕ} {parent : α} {features : List ℕ} {s : Split α}
    (h : bestSplit? t minLeaf samples parent features = some (some s)) :
    s.feature ∈ features ∧ lt s.impurity parent = true ∧ s.Between t samples := by
  obtain ⟨splits, hsplits, hbest⟩ := Option.bind_eq_some_iff.1 h
  rcases foldl_better (Option.some.inj hbest) with hnone | ⟨hmem, hlt⟩
  · cases hnone
  · obtain ⟨ofFeature, hmember, hs⟩ := List.mem_flatten.1 hmem
    obtain ⟨feature, hfeature, hfound⟩ := exists_of_mem_mapM hsplits _ hmember
    obtain ⟨rfl, hbetween⟩ := of_mem_featureSplits? hfound hs
    exact ⟨hfeature, hlt, hbetween⟩

/-- Thresholds separate the values that they stand between. -/
def Separating (α : Type) [Scalar α] : Prop :=
  ∀ a b : α, isFinite a = true → isFinite b = true → lt a b = true →
    le a (midpoint a b) = true ∧ le b (midpoint a b) = false

/-- Then both sides of a split have samples. -/
theorem Split.Between.shorter_sides {s : Split α} {low high : List ℕ} (hα : Separating α)
    (h : s.Between t samples) (hsides : partition? t s samples = some (low, high)) :
    low.length < samples.length ∧ high.length < samples.length := by
  obtain ⟨a, b, ha, hb, hlt, hthreshold, ⟨i, hi, hvalue⟩, ⟨j, hj, hvalue'⟩⟩ := h
  obtain ⟨hlow, hhigh⟩ := hα a b ha hb hlt
  obtain ⟨-, rfl, rfl⟩ := partition?_eq_some_iff.1 hsides
  constructor
  · apply List.length_filter_lt_length_iff_exists.2
    exact ⟨j, hj, by simp [goesLow, hvalue', hthreshold, hhigh]⟩
  · apply List.length_filter_lt_length_iff_exists.2
    exact ⟨i, hi, by simp [goesLow, hvalue, hthreshold, hlow]⟩

/-- The search for a split fails on no complete samples. -/
theorem exists_bestSplit? {width : ℕ} (h : t.Complete width samples) (minLeaf : ℕ) (parent : α)
    {features : List ℕ} (hfeatures : ∀ f ∈ features, f < width) :
    ∃ best, bestSplit? t minLeaf samples parent features = some best := by
  obtain ⟨splits, hsplits⟩ : ∃ splits, features.mapM (featureSplits? t minLeaf samples) =
      some splits := by
    refine ⟨features.map fun f => (featureSplits? t minLeaf samples f).getD [], ?_⟩
    apply mapM_eq_some_map
    intro f hf
    obtain ⟨ofFeature, hfound⟩ := exists_featureSplits? h minLeaf (hfeatures f hf)
    rw [hfound, Option.getD_some]
  rw [bestSplit?, hsplits]
  exact ⟨_, rfl⟩

/-- The features to try are features of the rows. -/
theorem candidates_lt (choice : FeatureChoice) (width : ℕ) (s : Stream) :
    ∀ f ∈ (candidates choice width s).1, f < width := by
  intro f hf
  cases choice with
  | all => exact List.mem_range.1 hf
  | squareRoot =>
    have hf : f ∈ ((sample width (min (max 1 width.sqrt) width) s).1).mergeSort := hf
    exact sample_lt (min_le_right _ _) s f (List.mem_mergeSort.1 hf)

end ClauseTriage.Cart
