import ClauseTriage.Proofs.Fit.Counting
import ClauseTriage.Proofs.Fit.Exhaustive

/-!
# The sides of a split

The search for a split stops between two samples in the order of a feature, and the test with the
threshold parts the samples at the same place. So every split has samples on both sides, growing
ends, and no node below the root is smaller than the parameters ask for.
-/
namespace ClauseTriage

open ClauseTriage.Random

namespace Cart

open Scalar

variable {α : Type}

section Sides

variable [Scalar α]

/-- The threshold of a split is the midpoint of two finite values, the smaller one first. -/
def Split.Midway (s : Split α) (a b : α) : Prop :=
  isFinite a = true ∧ isFinite b = true ∧ lt a b = true ∧ s.threshold = midpoint a b

/-- Where the search for a split found it: `below` and `above` are the samples up to there and after
it, in the order of the feature, and the threshold is the midpoint of the values next to it. -/
structure Split.At (s : Split α) (t : Training α) (samples below above : List ℕ) : Prop where
  order : t.ascending s.feature samples = below ++ above
  between : ∃ front i j rest, below = front ++ [i] ∧ above = j :: rest ∧
    s.Midway (t.valueAt s.feature i) (t.valueAt s.feature j)
  impurity : s.impurity = splitImpurity (t.tally below) (t.tally above)

variable {t : Training α} {feature minLeaf : ℕ} {samples front rest : List ℕ} {s : Split α}

/-- A split that is met after some samples stands between two of those to come, with as many samples
on both sides as were counted. -/
theorem exists_of_mem_boundaries (front rest : List ℕ)
    (hknown : t.Known feature (front ++ rest))
    (h : s ∈ boundaries feature minLeaf (t.tally (front ++ rest)) (t.tally front)
      (rest.map (t.entry feature))) :
    s.feature = feature ∧ ∃ below i j above, front ++ rest = below ++ i :: j :: above ∧
      s.Midway (t.valueAt feature i) (t.valueAt feature j) ∧
      s.impurity = splitImpurity (t.tally (below ++ [i])) (t.tally (j :: above)) ∧
      minLeaf ≤ (below ++ [i]).length ∧ minLeaf ≤ (j :: above).length := by
  induction rest generalizing front with
  | nil => cases h
  | cons i rest ih =>
    cases rest with
    | nil => cases h
    | cons j rest =>
      have hsplit : front ++ i :: j :: rest = (front ++ [i]) ++ (j :: rest) := by simp
      have hlater := ih (front ++ [i]) (by rwa [← hsplit])
      rw [← hsplit] at hlater
      rw [boundaries_of_known hknown] at h
      split at h
      · rename_i hstands
        simp only [Bool.and_eq_true, decide_eq_true_eq] at hstands
        obtain ⟨⟨⟨⟨hi, hj⟩, hlt⟩, hbelow⟩, habove⟩ := hstands
        rcases List.mem_cons.1 h with rfl | h
        · exact ⟨rfl, front, i, j, rest, rfl, ⟨hi, hj, hlt, rfl⟩, rfl, hbelow, habove⟩
        · exact hlater h
      · exact hlater h

/-- The best split was found at a place in the order of its feature, with enough samples on both
sides of it. -/
theorem bestSplit?_at {parent : α} {features : List ℕ}
    (h : bestSplit? t minLeaf samples parent features = some (some s)) :
    t.Known s.feature samples ∧ ∃ below above, s.At t samples below above ∧
      max 1 minLeaf ≤ below.length ∧ max 1 minLeaf ≤ above.length := by
  obtain ⟨splits, hsplits, hbest⟩ := Option.bind_eq_some_iff.1 h
  rcases foldl_better (Option.some.inj hbest) with hnone | ⟨hmem, -⟩
  · cases hnone
  · obtain ⟨ofFeature, hmember, hs⟩ := List.mem_flatten.1 hmem
    obtain ⟨feature, -, hfound⟩ := exists_of_mem_mapM hsplits _ hmember
    have hknown := known_of_featureSplits? hfound
    have htally : t.tally (t.ascending feature samples) = t.tally samples :=
      tally_perm (List.mergeSort_perm _ _)
    rw [featureSplits?_of_known hknown, Option.some.injEq] at hfound
    rw [← hfound, ← htally] at hs
    obtain ⟨rfl, below, i, j, above, horder, hbetween, himpurity, hbelow, habove⟩ :=
      exists_of_mem_boundaries [] (t.ascending feature samples) (known_ascending hknown) hs
    refine ⟨hknown, below ++ [i], j :: above, ⟨?_, ?_, himpurity⟩, hbelow, habove⟩
    · rw [List.nil_append] at horder
      rw [horder, List.append_assoc, List.singleton_append]
    · exact ⟨below, i, j, above, rfl, rfl, hbetween⟩

variable [Placed α]

/-- The test of a split parts the samples where the search found it. -/
theorem Split.At.sides (hα : Separating α) {below above : List ℕ} (h : s.At t samples below above)
    (hknown : t.Known s.feature samples) :
    ∃ low high, partition? t s samples = some (low, high) ∧ low.Perm below ∧ high.Perm above := by
  obtain ⟨front, i, j, rest, rfl, rfl, hi, hj, hlt, hthreshold⟩ := h.between
  have horder : t.ascending s.feature samples = front ++ i :: j :: rest := by simp [h.order]
  have hperm : samples.Perm (front ++ i :: j :: rest) :=
    horder ▸ (List.mergeSort_perm _ _).symm
  obtain ⟨habove, hbelow⟩ := hα _ _ hi hj hlt
  rw [← hthreshold] at habove hbelow
  obtain ⟨hlow, hhigh⟩ := sides_of_sorted (horder ▸ known_ascending hknown)
    (horder ▸ t.sorted_ascending s.feature samples) habove hbelow
  refine ⟨_, _, partition?_eq_some_iff.2 ⟨fun x hx => (hknown x hx).2, rfl, rfl⟩, ?_, ?_⟩
  · exact hlow ▸ hperm.filter _
  · exact hhigh ▸ hperm.filter fun x => !goesLow t s.feature s.threshold x

/-- The sides of the best split are the samples before and after a place in the order of its
feature, and enough on both sides. -/
theorem bestSplit?_sides (hα : Separating α) {parent : α} {features : List ℕ}
    (h : bestSplit? t minLeaf samples parent features = some (some s)) :
    ∃ below above low high, s.At t samples below above ∧ partition? t s samples = some (low, high) ∧
      low.Perm below ∧ high.Perm above ∧ max 1 minLeaf ≤ low.length ∧
      max 1 minLeaf ≤ high.length := by
  obtain ⟨hknown, below, above, hat, hbelow, habove⟩ := bestSplit?_at h
  obtain ⟨low, high, hsides, hlow, hhigh⟩ := hat.sides hα hknown
  refine ⟨below, above, low, high, hat, hsides, hlow, hhigh, ?_, ?_⟩
  · rwa [hlow.length_eq]
  · rwa [hhigh.length_eq]

end Sides

section Calls

variable [Scalar α]

/-- Growing a node calls for growing both sides of its split, one level deeper. -/
def Calls (t : Training α) (p : Params) (callee caller : ℕ × List ℕ) : Prop :=
  ∃ counts features s low high, counts? t caller.2 = some counts ∧
    stops (α := α) p caller.1 counts = false ∧
    bestSplit? t p.minLeaf caller.2 (weigh counts : Weights α).impurity features =
      some (some s) ∧
    partition? t s caller.2 = some (low, high) ∧
    (callee = (caller.1 + 1, low) ∨ callee = (caller.1 + 1, high))

/-- One node, and its branches by whatever grows them: nothing here asks that they have fewer
samples. -/
def growStep (t : Training α) (p : Params) (width : ℕ)
    (branch : ℕ → List ℕ → Stream → Option (Growth α × Stream)) (depth : ℕ) (samples : List ℕ)
    (stream : Stream) : Option (Growth α × Stream) := do
  let counts ← counts? t samples
  if stops (α := α) p depth counts then return (.leaf (weigh counts), stream)
  let (features, later) := candidates p.features width stream
  match ← bestSplit? t p.minLeaf samples (weigh counts : Weights α).impurity features with
  | none => return (.leaf (weigh counts), later)
  | some s =>
    let (low, high) ← partition? t s samples
    let (lowTree, later) ← branch (depth + 1) low later
    let (highTree, later) ← branch (depth + 1) high later
    return (.split (weigh counts) s.feature s.threshold lowTree highTree, later)

variable {t : Training α} {p : Params} {width depth : ℕ} {samples : List ℕ} {g : Growth α}

/-- Every call is for fewer samples. -/
theorem wellFounded_calls (hα : Separating α) (t : Training α) (p : Params) :
    WellFounded (Calls t p) := by
  refine Subrelation.wf (r := fun c d : ℕ × List ℕ => c.2.length < d.2.length) ?_
    (measure fun c : ℕ × List ℕ => c.2.length).wf
  rintro callee caller ⟨counts, features, s, low, high, -, -, hbest, hsides, hcallee⟩
  have hshorter := (bestSplit?_spec hbest).2.2.shorter_sides hα hsides
  rcases hcallee with rfl | rfl
  · exact hshorter.1
  · exact hshorter.2

/-- Growing needs no check that both sides have samples. -/
theorem grow_eq_growStep (hα : Separating α) (stream : Stream) :
    grow t p width depth samples stream =
      growStep t p width (grow t p width) depth samples stream := by
  rw [grow_eq, growStep]
  cases counts? t samples with
  | none => rfl
  | some counts =>
    simp only [Option.bind_eq_bind, Option.bind_some]
    split
    · rfl
    · obtain ⟨features, later⟩ := candidates p.features width stream
      dsimp only
      cases hbest : bestSplit? t p.minLeaf samples (weigh counts : Weights α).impurity features with
      | none => rfl
      | some best =>
        cases best with
        | none => rfl
        | some s =>
          simp only [Option.bind_some]
          cases hsides : partition? t s samples with
          | none => rfl
          | some sides =>
            rw [Option.bind_some, if_pos ((bestSplit?_spec hbest).2.2.shorter_sides hα hsides)]
            rfl

/-- Of the samples of a split, each is on one side. -/
theorem length_sides {s : Split α} {low high : List ℕ}
    (h : partition? t s samples = some (low, high)) :
    low.length + high.length = samples.length := by
  obtain ⟨-, rfl, rfl⟩ := partition?_eq_some_iff.1 h
  exact (List.length_eq_length_filter_add _).symm

variable [Placed α]

/-- Every leaf has a sample, so there are fewer than twice as many nodes as samples. -/
theorem Grown.size_lt (hα : Separating α) (h : Grown t p width depth samples g)
    (hsome : samples ≠ []) : g.size < 2 * samples.length := by
  induction h with
  | leaf hcounts hends =>
    have := List.length_pos_of_ne_nil hsome
    rw [Growth.size]
    omega
  | split hcounts hgoes hfeatures hbest hsides hlow hhigh ihl ihh =>
    obtain ⟨-, -, low, high, -, hsides', -, -, hl, hh⟩ := bestSplit?_sides hα hbest
    obtain ⟨rfl, rfl⟩ := Prod.mk.inj (Option.some.inj (hsides.symm.trans hsides'))
    have htotal := length_sides hsides
    have hlow := ihl (List.ne_nil_of_length_pos (by omega))
    have hhigh := ihh (List.ne_nil_of_length_pos (by omega))
    rw [Growth.size]
    omega

/-- The nodes below the root of a grown tree have enough samples. -/
theorem Grown.enough (hα : Separating α) (h : Grown t p width depth samples g) {first : ℕ}
    {n : Node α} (hn : n ∈ (g.numbered first).preorder) (hbelow : n.id ≠ first) :
    max 1 p.minLeaf ≤ (passing t samples (g.numbered first) n.id).length := by
  induction h generalizing first with
  | leaf hcounts hends =>
    obtain rfl := List.mem_singleton.1 hn
    exact absurd rfl hbelow
  | @split depth samples low high features counts s lowTree highTree hcounts hgoes hfeatures hbest
      hsides hlow hhigh ihl ihh =>
    have hnodup := Growth.nodup_numbered
      (.split (weigh counts) s.feature s.threshold lowTree highTree) first
    obtain ⟨-, -, low, high, -, hsides', -, -, hl, hh⟩ := bestSplit?_sides hα hbest
    obtain ⟨rfl, rfl⟩ := Prod.mk.inj (Option.some.inj (hsides.symm.trans hsides'))
    obtain ⟨hvalues, rfl, rfl⟩ := partition?_eq_some_iff.1 hsides
    rcases List.mem_cons.1 hn with rfl | hbranch
    · exact absurd rfl hbelow
    · rcases List.mem_append.1 hbranch with hbranch | hbranch
      · rw [Growth.numbered, passing_low hnodup hbranch]
        by_cases hroot : n.id = first + 1
        · rwa [hroot, passing_first]
        · exact ihl hbranch hroot
      · rw [Growth.numbered, passing_high hnodup hbranch hvalues]
        by_cases hroot : n.id = first + 1 + lowTree.size
        · rwa [hroot, passing_first]
        · exact ihh hbranch hroot

end Calls

/-- Finite numbers have their midpoint from the smaller one on and below the other. -/
theorem midpoint_half_open {a b : Float} (ha : a.isFinite = true) (hb : b.isFinite = true)
    (hlt : a < b) : a ≤ midpoint a b ∧ midpoint a b < b := by
  obtain ⟨hlow, hhigh⟩ := Double.midpoint_between ha hb hlt
  have hmidpoint : isNaN (midpoint a b) = false :=
    Placed.isNaN_of_isFinite (Double.midpoint_finite ha hb)
  refine ⟨hlow, ?_⟩
  rcases Placed.lt_or_eq_or_lt hmidpoint (Placed.isNaN_of_isFinite hb) with h | h | h
  · exact of_decide_eq_true h
  · exact absurd (of_decide_eq_true (Bool.and_eq_true_iff.1 h).2) hhigh
  · exact absurd (of_decide_eq_true (Placed.le_of_lt h)) hhigh

/-- Whatever values the samples have, the test of the best split parts them where the search found
it, for a midpoint is from the smaller value on and below the other. So both sides have enough
samples, growing never calls itself for as many samples and needs no check of this, and a tree is
fitted: it has fewer than twice as many nodes as samples, and below the root none with fewer samples
than the parameters ask for. -/
theorem growing_parts_samples (t : Training Float) (p : Params) :
    (∀ a b : Float, a.isFinite = true → b.isFinite = true → a < b →
      a ≤ midpoint a b ∧ midpoint a b < b) ∧
    (∀ minLeaf samples parent features s,
      bestSplit? t minLeaf samples parent features = some (some s) →
      ∃ below above low high, s.At t samples below above ∧
        partition? t s samples = some (low, high) ∧ low.Perm below ∧ high.Perm above ∧
        max 1 minLeaf ≤ low.length ∧ max 1 minLeaf ≤ high.length) ∧
    WellFounded (Calls t p) ∧
    (∀ width depth samples stream, grow t p width depth samples stream =
      growStep t p width (grow t p width) depth samples stream) ∧
    (∀ width samples stream, t.Rectangular width → samples ≠ [] →
      (∀ i ∈ samples, i < t.rows.size) → ∃ tree, fitTree t p samples stream = .ok tree) ∧
    ∀ samples stream tree, fitTree t p samples stream = .ok tree →
      tree.size ≤ 2 * samples.length - 1 ∧ ∀ id e, tree.arena[id]? = some e → id ≠ 0 →
        max 1 p.minLeaf ≤ (passing t samples tree.root id).length := by
  refine ⟨fun a b => midpoint_half_open, fun _ _ _ _ _ => bestSplit?_sides separating_float,
    wellFounded_calls separating_float t p,
    fun _ _ _ stream => grow_eq_growStep separating_float stream,
    fun _ _ stream hdata hsome hsamples => exists_fitTree hdata hsome hsamples p stream, ?_⟩
  intro samples stream tree hfit
  obtain ⟨hsome, g, hgrowth, htree⟩ := fitTree_eq_ok_iff.1 hfit
  obtain ⟨first, -, hgrown⟩ := grown_of_growth? separating_float hgrowth
  constructor
  · have hsize := hgrown.size_lt separating_float hsome
    rw [Tree.size, Growth.arena_eq htree, Growth.size_arena]
    omega
  · intro id e he hbelow
    obtain ⟨n, hn, rfl, -⟩ := tree.exists_node he
    rw [Growth.root_eq htree] at hn ⊢
    exact hgrown.enough separating_float hn hbelow

/-- Two numbers with none between them, the smallest there are, and one that is none. -/
theorem growing_parts_samples_adjacent :
    let t : Training Float := ⟨#[[5e-324], [1e-323], [0.0 / 0.0]], #[0, 1, 1]⟩
    (∃ s low high, bestSplit? t 1 [1, 0, 2, 1] 0.5 [0] = some (some s) ∧
      partition? t s [1, 0, 2, 1] = some (low, high) ∧ 1 ≤ low.length ∧ 1 ≤ high.length) ∧
      ∃ tree, fitTree t {} [1, 0, 2, 1] (.ofSeed 7) = .ok tree ∧ tree.size ≤ 7 := by
  intro t
  obtain ⟨-, hsides, -, -, hfits, hsize⟩ := growing_parts_samples t {}
  have hknown : ∀ f ∈ [0], t.Known f [1, 0, 2, 1] := by
    simp [t, Training.Known, Training.label?, Training.value?]
  have hsome : (exhaustive t 1 [1, 0, 2, 1] 0.5 [0]).isSome := by decide +kernel
  obtain ⟨s, hs⟩ := Option.isSome_iff_exists.1 hsome
  have hbest := bestSplit?_of_known sameMidpoints_float hknown 1 0.5
  rw [hs] at hbest
  obtain ⟨-, -, low, high, -, hparts, -, -, hlow, hhigh⟩ := hsides _ _ _ _ _ hbest
  have hdata : t.Rectangular 1 := ⟨by simp [t], rfl, by simp [t]⟩
  obtain ⟨tree, hfit⟩ := hfits 1 [1, 0, 2, 1] (.ofSeed 7) hdata (List.cons_ne_nil _ _) (by simp [t])
  exact ⟨⟨s, low, high, hbest, hparts, hlow, hhigh⟩, tree, hfit, (hsize _ _ _ hfit).1⟩

end Cart

end ClauseTriage
