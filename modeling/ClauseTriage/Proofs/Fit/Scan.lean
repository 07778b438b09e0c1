import ClauseTriage.Proofs.Fit.Cuts

/-!
# Going through samples by value

The search for a split goes through the samples in the order of a feature and keeps counts of the
labels it has passed. Where the value grows, the samples passed are those on the low side of a cut,
so the splits it meets are the cuts, in their order.
-/
namespace ClauseTriage.Cart

open Scalar

variable {α : Type} [Scalar α]

/-- The samples by value, as the search for a split goes through them. -/
def Training.ascending (t : Training α) (feature : ℕ) (samples : List ℕ) : List ℕ :=
  samples.mergeSort fun i j => notAfter (t.valueAt feature i) (t.valueAt feature j)

/-- By value of a feature, and with NaN at the end. -/
def Training.Sorted (t : Training α) (feature : ℕ) (samples : List ℕ) : Prop :=
  samples.Pairwise fun i j => notAfter (t.valueAt feature i) (t.valueAt feature j) = true

variable {t : Training α} {feature minLeaf : ℕ} {samples front rest : List ℕ} {i j : ℕ}

theorem goesLow_of_known (h : t.Known feature samples) (hi : i ∈ samples) (a : α) :
    goesLow t feature a i = le (t.valueAt feature i) a := by
  obtain ⟨-, v, hv⟩ := h i hi
  simp [goesLow, Training.valueAt, hv]

theorem values_of_known (h : t.Known feature samples) :
    samples.filterMap (t.value? feature) = samples.map (t.valueAt feature) := by
  rw [← List.filterMap_eq_map]
  apply List.filterMap_congr
  intro i hi
  obtain ⟨-, v, hv⟩ := h i hi
  simp [Training.valueAt, hv]

theorem known_of_featureSplits? {splits : List (Split α)}
    (h : featureSplits? t minLeaf samples feature = some splits) : t.Known feature samples := by
  obtain ⟨entries, hentries, -⟩ := Option.bind_eq_some_iff.1 h
  intro i hi
  obtain ⟨entry, hentry⟩ := exists_of_mapM_eq_some hentries i hi
  obtain ⟨v, hv, hlabel⟩ := Option.bind_eq_some_iff.1 hentry
  obtain ⟨l, hl, -⟩ := Option.bind_eq_some_iff.1 hlabel
  exact ⟨⟨l, hl⟩, v, hv⟩

/-- The search goes through the samples by value, and counts all labels first. -/
theorem featureSplits?_of_known (hknown : t.Known feature samples) (minLeaf : ℕ) :
    featureSplits? t minLeaf samples feature =
      some (boundaries feature (max 1 minLeaf) (t.tally samples) ⟨0, 0⟩
        ((t.ascending feature samples).map (t.entry feature))) := by
  have hsort : (samples.map (t.entry feature)).mergeSort (fun x y => notAfter x.1 y.1) =
      (t.ascending feature samples).map (t.entry feature) :=
    (List.map_mergeSort (f := t.entry feature) fun _ _ _ _ => rfl).symm
  have htotal : countLabels ((samples.map (t.entry feature)).map (·.2)) = t.tally samples := by
    rw [List.map_map]
    exact countLabels_eq_tally fun i hi => (hknown i hi).1
  rw [featureSplits?, entries_of_known hknown]
  simp only [Option.bind_eq_bind, Option.bind_some, Option.pure_def, hsort, htotal]

/-- One step through the samples: those passed are counted, and those to come are the others. -/
theorem boundaries_of_known (hknown : t.Known feature (front ++ i :: j :: rest)) (minLeaf : ℕ) :
    boundaries feature minLeaf (t.tally (front ++ i :: j :: rest)) (t.tally front)
        ((i :: j :: rest).map (t.entry feature)) =
      if isFinite (t.valueAt feature i) && isFinite (t.valueAt feature j) &&
          lt (t.valueAt feature i) (t.valueAt feature j) &&
          decide (minLeaf ≤ (front ++ [i]).length) && decide (minLeaf ≤ (j :: rest).length) then
        ⟨feature, midpoint (t.valueAt feature i) (t.valueAt feature j),
          splitImpurity (t.tally (front ++ [i])) (t.tally (j :: rest))⟩ ::
          boundaries feature minLeaf (t.tally (front ++ i :: j :: rest)) (t.tally (front ++ [i]))
            ((j :: rest).map (t.entry feature))
      else boundaries feature minLeaf (t.tally (front ++ i :: j :: rest)) (t.tally (front ++ [i]))
        ((j :: rest).map (t.entry feature)) := by
  have hsplit : front ++ i :: j :: rest = (front ++ [i]) ++ (j :: rest) := by simp
  have hcounts : addLabel (t.tally front) ((t.label? i).getD 0) = t.tally (front ++ [i]) := by
    obtain ⟨⟨l, hl⟩, -⟩ := hknown i (by simp)
    rw [hl, Option.getD_some, addLabel_tally hl]
  have hrest : remaining (t.tally (front ++ i :: j :: rest)) (t.tally (front ++ [i])) =
      t.tally (j :: rest) := by
    rw [hsplit, remaining_tally]
  have hlow := Training.tally_total fun x (hx : x ∈ front ++ [i]) =>
    (hknown x (hsplit ▸ List.mem_append_left _ hx)).1
  have hhigh := Training.tally_total fun x (hx : x ∈ j :: rest) =>
    (hknown x (hsplit ▸ List.mem_append_right _ hx)).1
  simp only [List.map_cons, Training.entry]
  rw [boundaries, hcounts, hrest, hlow, hhigh]

theorem known_ascending (h : t.Known feature samples) :
    t.Known feature (t.ascending feature samples) :=
  fun i hi => h i (List.mem_mergeSort.1 hi)

variable [Placed α]

theorem notAfter_total (x y : α) : (notAfter x y || notAfter y x) = true := by
  rw [notAfter, notAfter]
  cases hx : isNaN x <;> cases hy : isNaN y <;> simp
  simp only [Placed.le_iff, hx, hy, true_and]
  exact le_total _ _

theorem notAfter_trans (x y z : α) (h : notAfter x y = true) (h' : notAfter y z = true) :
    notAfter x z = true := by
  rw [notAfter] at *
  cases hx : isNaN x <;> cases hy : isNaN y <;> cases hz : isNaN z <;> simp_all [Placed.le_iff]
  exact h.trans h'

/-- Before a number in the order stands what is not above it, and no NaN. -/
theorem notAfter_iff {x y : α} (hy : isNaN y = false) : notAfter x y = true ↔ le x y = true := by
  rw [notAfter]
  cases hx : isNaN x <;> simp [Placed.le_iff, hx, hy]

/-- The first of the different numbers in an ascending list is its head. -/
theorem exists_distinct_cons {w : α} {ws : List α} (hw : isNaN w = false)
    (h : ∀ x ∈ ws, notAfter w x = true) :
    ∃ d ds, distinct (w :: ws) = d :: ds ∧ eq w d = true := by
  rw [distinct_cons, hw, if_neg Bool.false_ne_true]
  cases hws : distinct ws with
  | nil => exact ⟨w, [], rfl, Placed.eq_iff.2 ⟨hw, hw, rfl⟩⟩
  | cons d ds =>
    obtain ⟨hmem, hd⟩ := mem_distinct (hws ▸ List.mem_cons_self : d ∈ distinct ws)
    have hle : le w d = true := (notAfter_iff hd).1 (h d hmem)
    rw [insertValue]
    split
    · exact ⟨w, d :: ds, rfl, Placed.eq_iff.2 ⟨hw, hw, rfl⟩⟩
    · rename_i hnot
      have heq := Placed.eq_of_le hle hnot
      split <;> exact ⟨d, _, rfl, heq⟩

/-- The neighbours in an ascending list: its first two numbers, if they are different and finite,
and those after them. Equal numbers may stand for each other. -/
theorem neighbours_distinct_cons {v w : α} {ws : List α} (hvw : notAfter v w = true)
    (h : ∀ x ∈ ws, notAfter w x = true) :
    ∃ pairs, neighbours (distinct (v :: w :: ws)) = pairs ++ neighbours (distinct (w :: ws)) ∧
      if isFinite v && isFinite w && lt v w then ∃ d, eq w d = true ∧ pairs = [(v, d)]
      else pairs = [] := by
  have hfinite {x : α} (hx : isNaN x = true) : isFinite x = false :=
    Bool.eq_false_iff.2 fun hf => by simp [Placed.isNaN_of_isFinite hf] at hx
  rw [distinct_cons v]
  cases hv : isNaN v with
  | true =>
    rw [if_pos rfl, hfinite hv]
    exact ⟨[], rfl, by simp⟩
  | false =>
    rw [if_neg Bool.false_ne_true]
    cases hw : isNaN w with
    | true =>
      -- what stands after a NaN is none of the numbers
      have hnone : distinct (w :: ws) = [] := by
        rw [List.eq_nil_iff_forall_not_mem]
        intro x hx
        obtain ⟨hmem, hnumber⟩ := mem_distinct hx
        rcases List.mem_cons.1 hmem with rfl | hmem
        · rw [hw] at hnumber
          cases hnumber
        · have := h x hmem
          simp [notAfter, hw, hnumber] at this
      rw [hnone, hfinite hw]
      exact ⟨[], rfl, by simp⟩
    | false =>
      obtain ⟨d, ds, hdistinct, heq⟩ := exists_distinct_cons hw h
      rw [hdistinct, insertValue, Placed.isFinite_congr heq, Placed.lt_congr heq]
      split
      · rename_i hlt
        rw [neighbours]
        split
        · rename_i hfinite
          exact ⟨[(v, d)], rfl, by simp [hfinite, hlt, heq]⟩
        · rename_i hfinite
          refine ⟨[], rfl, ?_⟩
          rw [if_neg]
          simpa [hlt] using hfinite
      · rename_i hnot
        have hle : le v d = true := by
          rw [← Placed.le_congr heq]
          exact (notAfter_iff hw).1 hvw
        have hdv := Placed.eq_of_le hle hnot
        have hnot' : ¬lt d v = true := fun hlt => by
          have := (Placed.lt_iff.1 hlt).2.2
          rw [(Placed.eq_iff.1 hdv).2.2] at this
          exact this.false
        rw [if_neg hnot']
        exact ⟨[], rfl, by simp [hnot]⟩

theorem Training.sorted_ascending (t : Training α) (feature : ℕ) (samples : List ℕ) :
    t.Sorted feature (t.ascending feature samples) :=
  List.pairwise_mergeSort (fun i j k => notAfter_trans (t.valueAt feature i) (t.valueAt feature j)
    (t.valueAt feature k)) (fun i j => notAfter_total (t.valueAt feature i) (t.valueAt feature j))
    samples

/-- A threshold between two values that follow each other parts the samples there. -/
theorem sides_of_sorted (hknown : t.Known feature (front ++ i :: j :: rest))
    (hsorted : t.Sorted feature (front ++ i :: j :: rest)) {c : α}
    (hi : le (t.valueAt feature i) c = true) (hj : le (t.valueAt feature j) c = false) :
    (front ++ i :: j :: rest).filter (goesLow t feature c) = front ++ [i] ∧
      ((front ++ i :: j :: rest).filter fun x => !goesLow t feature c x) = j :: rest := by
  obtain ⟨hnumber, -, -⟩ := Placed.le_iff.1 hi
  obtain ⟨-, hback, hfront⟩ := List.pairwise_append.1 hsorted
  obtain ⟨-, hback⟩ := List.pairwise_cons.1 hback
  obtain ⟨hafter, -⟩ := List.pairwise_cons.1 hback
  have hlow : ∀ x ∈ front ++ [i], goesLow t feature c x = true := by
    intro x hx
    rw [goesLow_of_known hknown (by simp at hx ⊢; tauto)]
    rcases List.mem_append.1 hx with hx | hx
    · exact Placed.le_trans ((notAfter_iff hnumber).1 (hfront x hx i List.mem_cons_self)) hi
    · rwa [List.mem_singleton.1 hx]
  have hhigh : ∀ x ∈ j :: rest, goesLow t feature c x = false := by
    intro x hx
    rw [goesLow_of_known hknown (by simp at hx ⊢; tauto)]
    rcases List.mem_cons.1 hx with rfl | hx
    · exact hj
    · rw [Bool.eq_false_iff] at hj ⊢
      intro hle
      have hbelow := (notAfter_iff (Placed.le_iff.1 hle).1).1 (hafter x hx)
      exact hj (Placed.le_trans hbelow hle)
  have hsplit : front ++ i :: j :: rest = (front ++ [i]) ++ (j :: rest) := by simp
  rw [hsplit, List.filter_append (front ++ [i]), List.filter_append (front ++ [i]),
    List.filter_eq_self.2 hlow]
  constructor
  · rw [List.filter_eq_nil_iff.2 fun x hx => by simp [hhigh x hx], List.append_nil]
  · rw [List.filter_eq_nil_iff.2 fun x hx => by simp [hlow x hx],
      List.filter_eq_self.2 fun x hx => by simp [hhigh x hx], List.nil_append]

/-- So does the smaller of the two values. -/
theorem sides_of_lt (hknown : t.Known feature (front ++ i :: j :: rest))
    (hsorted : t.Sorted feature (front ++ i :: j :: rest))
    (hlt : lt (t.valueAt feature i) (t.valueAt feature j) = true) :
    (front ++ i :: j :: rest).filter (goesLow t feature (t.valueAt feature i)) = front ++ [i] ∧
      ((front ++ i :: j :: rest).filter fun x => !goesLow t feature (t.valueAt feature i) x) =
        j :: rest := by
  apply sides_of_sorted hknown hsorted (Placed.le_refl (Placed.lt_iff.1 hlt).1)
  rw [Bool.eq_false_iff]
  intro hle
  exact (Placed.lt_iff.1 hlt).2.2.not_ge (Placed.le_iff.1 hle).2.2

/-- A cut has enough samples on both sides exactly when there are enough before and after it. -/
theorem leavesEnough_of_sorted (hknown : t.Known feature (front ++ i :: j :: rest))
    (hsorted : t.Sorted feature (front ++ i :: j :: rest))
    (hlt : lt (t.valueAt feature i) (t.valueAt feature j) = true) :
    leavesEnough t minLeaf (front ++ i :: j :: rest) feature (t.valueAt feature i) =
      (decide (max 1 minLeaf ≤ (front ++ [i]).length) &&
        decide (max 1 minLeaf ≤ (j :: rest).length)) := by
  obtain ⟨hlow, hhigh⟩ := sides_of_lt hknown hsorted hlt
  rw [leavesEnough, hlow, hhigh]

/-- Where the value grows, the split with the running counts is the cut there. -/
theorem cut_of_sorted (hα : SameMidpoints α) {d : α}
    (hknown : t.Known feature (front ++ i :: j :: rest))
    (hsorted : t.Sorted feature (front ++ i :: j :: rest))
    (hi : isFinite (t.valueAt feature i) = true) (hj : isFinite (t.valueAt feature j) = true)
    (hlt : lt (t.valueAt feature i) (t.valueAt feature j) = true)
    (hd : eq (t.valueAt feature j) d = true) :
    cut t (front ++ i :: j :: rest) feature (t.valueAt feature i) d =
      ⟨feature, midpoint (t.valueAt feature i) (t.valueAt feature j),
        splitImpurity (t.tally (front ++ [i])) (t.tally (j :: rest))⟩ := by
  obtain ⟨hlow, hhigh⟩ := sides_of_lt hknown hsorted hlt
  have hself := Placed.isNaN_of_isFinite hi
  rw [cut, hlow, hhigh, hα _ _ _ _ hi hj hlt (Placed.eq_iff.2 ⟨hself, hself, rfl⟩) hd]

/-- The splits that are met after some samples are the cuts between the values of the others. -/
theorem boundaries_eq_cuts (hα : SameMidpoints α) (minLeaf : ℕ) (front rest : List ℕ)
    (hknown : t.Known feature (front ++ rest)) (hsorted : t.Sorted feature (front ++ rest)) :
    boundaries feature (max 1 minLeaf) (t.tally (front ++ rest)) (t.tally front)
        (rest.map (t.entry feature)) =
      cutsBetween t minLeaf (front ++ rest) feature
        (neighbours (distinct (rest.map (t.valueAt feature)))) := by
  induction rest generalizing front with
  | nil => rfl
  | cons i rest ih =>
    cases rest with
    | nil =>
      have hone : neighbours (distinct [t.valueAt feature i]) = [] := by
        rw [distinct_cons]
        split <;> rfl
      rw [List.map_singleton, List.map_singleton, hone]
      rfl
    | cons j rest =>
      have hsplit : front ++ i :: j :: rest = (front ++ [i]) ++ (j :: rest) := by simp
      have hlater := ih (front ++ [i]) (by rwa [← hsplit]) (by rwa [← hsplit])
      rw [← hsplit] at hlater
      obtain ⟨hfirst, hback⟩ := List.pairwise_cons.1 (List.pairwise_append.1 hsorted).2.1
      obtain ⟨pairs, hpairs, hhead⟩ := neighbours_distinct_cons (hfirst j List.mem_cons_self)
        (List.forall_mem_map.2 (List.pairwise_cons.1 hback).1)
      rw [boundaries_of_known hknown, hlater]
      simp only [List.map_cons, hpairs]
      by_cases hgrows : (isFinite (t.valueAt feature i) && isFinite (t.valueAt feature j) &&
          lt (t.valueAt feature i) (t.valueAt feature j)) = true
      · rw [if_pos hgrows] at hhead
        obtain ⟨d, hd, rfl⟩ := hhead
        simp only [Bool.and_eq_true] at hgrows
        obtain ⟨⟨hi, hj⟩, hlt⟩ := hgrows
        rw [List.singleton_append, cutsBetween_cons, leavesEnough_of_sorted hknown hsorted hlt,
          cut_of_sorted hα hknown hsorted hi hj hlt hd, hi, hj, hlt]
        simp only [Bool.true_and]
      · rw [if_neg hgrows] at hhead
        rw [hhead, List.nil_append, if_neg]
        simp only [Bool.and_eq_true] at hgrows ⊢
        tauto

/-- The splits of a feature are its cuts. -/
theorem featureSplits?_eq_cuts (hα : SameMidpoints α) (hknown : t.Known feature samples)
    (minLeaf : ℕ) :
    featureSplits? t minLeaf samples feature = some (cuts t minLeaf samples feature) := by
  have hperm : (t.ascending feature samples).Perm samples := List.mergeSort_perm _ _
  have hcuts := boundaries_eq_cuts hα minLeaf [] _ (known_ascending hknown)
    (t.sorted_ascending feature samples)
  rw [List.nil_append] at hcuts
  have hvalues : (t.ascending feature samples).filterMap (t.value? feature) =
      (t.ascending feature samples).map (t.valueAt feature) :=
    values_of_known (known_ascending hknown)
  rw [featureSplits?_of_known hknown, ← tally_perm hperm, ← cuts_perm hα hperm, cuts, hvalues]
  exact congrArg some hcuts

theorem featureSplits?_eq_some_iff (hα : SameMidpoints α) {splits : List (Split α)} :
    featureSplits? t minLeaf samples feature = some splits ↔
      t.Known feature samples ∧ splits = cuts t minLeaf samples feature := by
  constructor
  · intro h
    have hknown := known_of_featureSplits? h
    rw [featureSplits?_eq_cuts hα hknown, Option.some.injEq] at h
    exact ⟨hknown, h.symm⟩
  · rintro ⟨hknown, rfl⟩
    exact featureSplits?_eq_cuts hα hknown minLeaf

end ClauseTriage.Cart
