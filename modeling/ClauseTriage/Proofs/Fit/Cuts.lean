import ClauseTriage.Proofs.Fit.Split
import ClauseTriage.Proofs.Places

/-!
# Cuts of samples

Samples are cut in two between neighbouring values of a feature, and the labels on both sides are
counted afresh for every cut. The cuts do not depend on the order of the samples. Going through the
samples by value, with counts that run along, meets the same cuts in the same order.
-/
namespace ClauseTriage.Cart

open Scalar

variable {α : Type}

section Tallies

variable {t : Training α} {samples others : List ℕ}

theorem tally_perm (h : samples.Perm others) : t.tally samples = t.tally others := by
  simp only [Training.tally, h.countP_eq]

theorem remaining_tally (samples others : List ℕ) :
    remaining (t.tally (samples ++ others)) (t.tally samples) = t.tally others := by
  simp [remaining, Training.tally, List.countP_append]

/-- Running counts go on with the label of the next sample. -/
theorem addLabel_tally {i : ℕ} {l : Label} (h : t.label? i = some l) :
    addLabel (t.tally samples) l = t.tally (samples ++ [i]) := by
  have hl := Training.label?_eq h
  rcases hl with rfl | rfl <;> simp [addLabel, Training.tally, List.countP_append, h]

end Tallies

variable [Scalar α]

section Values

/-- Puts a number in its place among ascending ones, unless an equal one is there. -/
def insertValue (v : α) : List α → List α
  | [] => [v]
  | w :: ws =>
    if lt v w then v :: w :: ws else if lt w v then w :: insertValue v ws else w :: ws

/-- The different numbers of a list, ascending. -/
def distinct (vs : List α) : List α := (vs.filter fun v => !isNaN v).foldr insertValue []

/-- Finite numbers that stand next to each other. -/
def neighbours : List α → List (α × α)
  | a :: b :: rest =>
    if isFinite a && isFinite b then (a, b) :: neighbours (b :: rest) else neighbours (b :: rest)
  | _ => []

theorem mem_insertValue {v x : α} {ws : List α} (h : x ∈ insertValue v ws) : x = v ∨ x ∈ ws := by
  induction ws with
  | nil => exact .inl (List.mem_singleton.1 h)
  | cons w ws ih =>
    rw [insertValue] at h
    split at h
    · exact List.mem_cons.1 h
    · split at h
      · rcases List.mem_cons.1 h with rfl | h
        · exact .inr List.mem_cons_self
        · exact (ih h).imp_right (List.mem_cons_of_mem _)
      · exact .inr h

theorem mem_distinct {x : α} {vs : List α} (h : x ∈ distinct vs) : x ∈ vs ∧ isNaN x = false := by
  have hnumbers : ∀ ws : List α, x ∈ ws.foldr insertValue [] → x ∈ ws := by
    intro ws hx
    induction ws with
    | nil => exact hx
    | cons w ws ih =>
      rcases mem_insertValue hx with rfl | hx
      · exact List.mem_cons_self
      · exact List.mem_cons_of_mem _ (ih hx)
  simpa using hnumbers _ h

theorem distinct_cons (v : α) (vs : List α) :
    distinct (v :: vs) = if isNaN v then distinct vs else insertValue v (distinct vs) := by
  cases hv : isNaN v <;> simp [distinct, hv]

variable [Placed α]

theorem pairwise_insertValue {v : α} {ws : List α} (hv : isNaN v = false)
    (hws : ∀ w ∈ ws, isNaN w = false) (h : ws.Pairwise fun x y => lt x y = true) :
    (insertValue v ws).Pairwise fun x y => lt x y = true := by
  induction ws with
  | nil => exact List.pairwise_singleton _ _
  | cons w ws ih =>
    obtain ⟨hw, hrest⟩ := List.forall_mem_cons.1 hws
    obtain ⟨hbelow, hpairs⟩ := List.pairwise_cons.1 h
    rw [insertValue]
    split
    · rename_i hlt
      refine List.pairwise_cons.2 ⟨fun x hx => ?_, h⟩
      rcases List.mem_cons.1 hx with rfl | hx
      · exact hlt
      · exact Placed.lt_trans hlt (hbelow x hx)
    · split
      · rename_i hlt
        refine List.pairwise_cons.2 ⟨fun x hx => ?_, ih hrest hpairs⟩
        rcases mem_insertValue hx with rfl | hx
        · exact hlt
        · exact hbelow x hx
      · exact h

/-- A number is found in its place once it is put there. -/
theorem mem_places_insertValue {v : α} {ws : List α} (hv : isNaN v = false)
    (hws : ∀ w ∈ ws, isNaN w = false) (p : WithBot (WithTop ℚ)) :
    p ∈ (insertValue v ws).map Placed.place ↔ p = Placed.place v ∨ p ∈ ws.map Placed.place := by
  induction ws with
  | nil => simp [insertValue]
  | cons w ws ih =>
    obtain ⟨hw, hrest⟩ := List.forall_mem_cons.1 hws
    rw [insertValue]
    split
    · rw [List.map_cons, List.mem_cons]
    · rename_i hnot
      split
      · rw [List.map_cons, List.mem_cons, ih hrest, List.map_cons, List.mem_cons, or_left_comm]
      · rename_i hnot'
        have hplace : Placed.place v = Placed.place w := by
          rcases Placed.lt_or_eq_or_lt hv hw with hlt | heq | hlt
          · exact absurd hlt hnot
          · exact (Placed.eq_iff.1 heq).2.2
          · exact absurd hlt hnot'
        rw [List.map_cons, List.mem_cons, hplace, or_self_left]

theorem distinct_spec (vs : List α) :
    (distinct vs).Pairwise (fun x y => lt x y = true) ∧
      ∀ p, p ∈ (distinct vs).map Placed.place ↔
        ∃ v ∈ vs, isNaN v = false ∧ Placed.place v = p := by
  induction vs with
  | nil => simp [distinct]
  | cons v vs ih =>
    obtain ⟨hpairs, hplaces⟩ := ih
    have hnumbers : ∀ w ∈ distinct vs, isNaN w = false := fun w hw => (mem_distinct hw).2
    rw [distinct_cons]
    cases hv : isNaN v with
    | true =>
      rw [if_pos rfl]
      exact ⟨hpairs, by simp [hplaces, hv]⟩
    | false =>
      rw [if_neg Bool.false_ne_true]
      refine ⟨pairwise_insertValue hv hnumbers hpairs, fun p => ?_⟩
      rw [mem_places_insertValue hv hnumbers, hplaces]
      simp only [List.mem_cons, exists_eq_or_imp, hv, true_and, eq_comm (a := p)]

/-- In whatever order numbers come, the different ones among them are in the same places. -/
theorem distinct_perm {vs ws : List α} (h : vs.Perm ws) :
    List.Forall₂ (fun x y => eq x y = true) (distinct vs) (distinct ws) := by
  have hsorted (us : List α) : ((distinct us).map Placed.place).Pairwise (· < ·) :=
    (List.pairwise_map.2 ((distinct_spec us).1.imp fun hlt => (Placed.lt_iff.1 hlt).2.2))
  have hperm : ((distinct vs).map Placed.place).Perm ((distinct ws).map Placed.place) := by
    rw [List.perm_ext_iff_of_nodup ((hsorted vs).imp ne_of_lt) ((hsorted ws).imp ne_of_lt)]
    intro p
    rw [(distinct_spec vs).2, (distinct_spec ws).2]
    simp only [h.mem_iff]
  have hplaces := hperm.eq_of_pairwise (fun _ _ _ _ hlt hgt => absurd hgt hlt.asymm) (hsorted vs)
    (hsorted ws)
  rw [← List.forall₂_eq_eq_eq, List.forall₂_map_left_iff, List.forall₂_map_right_iff] at hplaces
  obtain ⟨hlength, hzip⟩ := List.forall₂_iff_zip.1 hplaces
  refine List.forall₂_iff_zip.2 ⟨hlength, fun hxy => ?_⟩
  obtain ⟨hx, hy⟩ := List.of_mem_zip hxy
  exact Placed.eq_iff.2 ⟨(mem_distinct hx).2, (mem_distinct hy).2, hzip hxy⟩

/-- Lists of equal numbers have equal neighbours. -/
theorem forall₂_neighbours {vs ws : List α}
    (h : List.Forall₂ (fun x y => eq x y = true) vs ws) :
    List.Forall₂ (fun p q => eq p.1 q.1 = true ∧ eq p.2 q.2 = true) (neighbours vs)
      (neighbours ws) := by
  induction h with
  | nil => exact .nil
  | @cons x y vs ws hxy h ih =>
    cases h with
    | nil => exact .nil
    | @cons x' y' vs ws hxy' h =>
      rw [neighbours, neighbours, Placed.isFinite_congr hxy, Placed.isFinite_congr hxy']
      split
      · exact .cons ⟨hxy, hxy'⟩ ih
      · exact ih

/-- Neighbours are finite, the smaller one first, and no number lies between them. -/
theorem of_mem_neighbours {vs : List α} {a b : α} (hvs : vs.Pairwise fun x y => lt x y = true)
    (h : (a, b) ∈ neighbours vs) :
    isFinite a = true ∧ isFinite b = true ∧ lt a b = true ∧ a ∈ vs ∧ b ∈ vs ∧
      ∀ v ∈ vs, le v a = true ∨ le b v = true := by
  induction vs with
  | nil => cases h
  | cons v vs ih =>
    cases vs with
    | nil => cases h
    | cons w rest =>
      obtain ⟨hv, hrest⟩ := List.pairwise_cons.1 hvs
      have htail (h : (a, b) ∈ neighbours (w :: rest)) : isFinite a = true ∧ isFinite b = true ∧
          lt a b = true ∧ a ∈ v :: w :: rest ∧ b ∈ v :: w :: rest ∧
          ∀ x ∈ v :: w :: rest, le x a = true ∨ le b x = true := by
        obtain ⟨ha, hb, hlt, hmem, hmem', hbetween⟩ := ih hrest h
        exact ⟨ha, hb, hlt, List.mem_cons_of_mem _ hmem, List.mem_cons_of_mem _ hmem',
          List.forall_mem_cons.2 ⟨.inl (Placed.le_of_lt (hv a hmem)), hbetween⟩⟩
      rw [neighbours] at h
      split at h
      · rename_i hfinite
        rcases List.mem_cons.1 h with heq | h
        · obtain ⟨rfl, rfl⟩ := Prod.mk.inj heq
          obtain ⟨ha, hb⟩ := Bool.and_eq_true_iff.1 hfinite
          refine ⟨ha, hb, hv b List.mem_cons_self, List.mem_cons_self,
            List.mem_cons_of_mem _ List.mem_cons_self, List.forall_mem_cons.2 ⟨.inl ?_, ?_⟩⟩
          · exact Placed.le_refl (Placed.isNaN_of_isFinite ha)
          · refine List.forall_mem_cons.2 ⟨.inr ?_, fun x hx => .inr (Placed.le_of_lt ?_)⟩
            · exact Placed.le_refl (Placed.isNaN_of_isFinite hb)
            · exact (List.pairwise_cons.1 hrest).1 x hx
        · exact htail h
      · exact htail h

end Values

section Cuts

variable {t : Training α} {samples : List ℕ} {feature minLeaf : ℕ}

/-- The split between two values, with the labels of both sides counted. -/
def cut (t : Training α) (samples : List ℕ) (feature : ℕ) (a b : α) : Split α :=
  ⟨feature, midpoint a b, splitImpurity (t.tally (samples.filter (goesLow t feature a)))
    (t.tally (samples.filter fun i => !goesLow t feature a i))⟩

/-- Both sides of a cut have enough samples. -/
def leavesEnough (t : Training α) (minLeaf : ℕ) (samples : List ℕ) (feature : ℕ) (a : α) : Bool :=
  max 1 minLeaf ≤ (samples.filter (goesLow t feature a)).length &&
    max 1 minLeaf ≤ (samples.filter fun i => !goesLow t feature a i).length

/-- The cuts between some values. -/
def cutsBetween (t : Training α) (minLeaf : ℕ) (samples : List ℕ) (feature : ℕ)
    (pairs : List (α × α)) : List (Split α) :=
  (pairs.filter fun p => leavesEnough t minLeaf samples feature p.1).map fun p =>
    cut t samples feature p.1 p.2

/-- The cuts between neighbouring values of a feature, from small values to large ones. -/
def cuts (t : Training α) (minLeaf : ℕ) (samples : List ℕ) (feature : ℕ) : List (Split α) :=
  cutsBetween t minLeaf samples feature
    (neighbours (distinct (samples.filterMap (t.value? feature))))

theorem cut_perm {others : List ℕ} (h : samples.Perm others) (a b : α) :
    cut t samples feature a b = cut t others feature a b := by
  rw [cut, cut, tally_perm (h.filter _), tally_perm (h.filter fun i => !goesLow t feature a i)]

theorem leavesEnough_perm {others : List ℕ} (h : samples.Perm others) (a : α) :
    leavesEnough t minLeaf samples feature a = leavesEnough t minLeaf others feature a := by
  rw [leavesEnough, leavesEnough, (h.filter _).length_eq,
    (h.filter fun i => !goesLow t feature a i).length_eq]

theorem cutsBetween_perm {others : List ℕ} (h : samples.Perm others) (pairs : List (α × α)) :
    cutsBetween t minLeaf samples feature pairs = cutsBetween t minLeaf others feature pairs := by
  simp only [cutsBetween, leavesEnough_perm h, cut_perm h]

theorem cutsBetween_cons (a b : α) (pairs : List (α × α)) :
    cutsBetween t minLeaf samples feature ((a, b) :: pairs) =
      if leavesEnough t minLeaf samples feature a then
        cut t samples feature a b :: cutsBetween t minLeaf samples feature pairs
      else cutsBetween t minLeaf samples feature pairs := by
  rw [cutsBetween, List.filter_cons]
  split <;> rfl

variable [Placed α]

/-- The threshold between two finite values depends on their places alone. -/
def SameMidpoints (α : Type) [Scalar α] : Prop :=
  ∀ a a' b b' : α, isFinite a = true → isFinite b = true → lt a b = true → eq a a' = true →
    eq b b' = true → midpoint a b = midpoint a' b'

theorem goesLow_congr {a a' : α} (h : eq a a' = true) :
    goesLow t feature a = goesLow t feature a' := by
  funext i
  simp only [goesLow, Placed.le_congr h]

/-- Cuts between equal values are equal. -/
theorem cutsBetween_congr (hα : SameMidpoints α) {pairs pairs' : List (α × α)}
    (hpairs : ∀ p ∈ pairs, isFinite p.1 = true ∧ isFinite p.2 = true ∧ lt p.1 p.2 = true)
    (h : List.Forall₂ (fun p q => eq p.1 q.1 = true ∧ eq p.2 q.2 = true) pairs pairs') :
    cutsBetween t minLeaf samples feature pairs = cutsBetween t minLeaf samples feature pairs' := by
  induction h with
  | nil => rfl
  | @cons p q pairs pairs' hpq h ih =>
    obtain ⟨⟨ha, hb, hlt⟩, hrest⟩ := List.forall_mem_cons.1 hpairs
    have hcut : cut t samples feature p.1 p.2 = cut t samples feature q.1 q.2 := by
      rw [cut, cut, hα _ _ _ _ ha hb hlt hpq.1 hpq.2, goesLow_congr hpq.1]
    have henough : leavesEnough t minLeaf samples feature p.1 =
        leavesEnough t minLeaf samples feature q.1 := by
      rw [leavesEnough, leavesEnough, goesLow_congr hpq.1]
    rw [cutsBetween_cons, cutsBetween_cons, hcut, henough, ih hrest]

/-- The order of the samples does not matter for the cuts. -/
theorem cuts_perm (hα : SameMidpoints α) {others : List ℕ} (h : samples.Perm others) :
    cuts t minLeaf samples feature = cuts t minLeaf others feature := by
  rw [cuts, cuts, cutsBetween_perm h]
  apply cutsBetween_congr hα
  · intro p hp
    obtain ⟨ha, hb, hlt, -⟩ := of_mem_neighbours (distinct_spec _).1 hp
    exact ⟨ha, hb, hlt⟩
  · exact forall₂_neighbours (distinct_perm (h.filterMap _))

end Cuts

end ClauseTriage.Cart
