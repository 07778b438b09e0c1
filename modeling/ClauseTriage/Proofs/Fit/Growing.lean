import ClauseTriage.Fit.Forest
import ClauseTriage.Proofs.Fit.Split

/-!
# Growing, step by step

What a tree grown from some samples may look like, whatever random features were tried, and that
growth does not fail where every sample has a label and all its values.
-/
namespace ClauseTriage.Cart

open ClauseTriage.Random Scalar

variable {α : Type} [Scalar α]

/-- How a tree grows at some depth from some samples: a node counts their labels. It is a leaf where
growth stops or no split lowers the impurity, and else hands each sample to one of two branches. -/
inductive Grown (t : Training α) (p : Params) (width : ℕ) : ℕ → List ℕ → Growth α → Prop where
  | leaf {depth : ℕ} {samples : List ℕ} {counts : Weights ℕ}
      (hcounts : counts? t samples = some counts)
      (hends : stops (α := α) p depth counts = true ∨ ∃ features, (∀ f ∈ features, f < width) ∧
        bestSplit? t p.minLeaf samples (weigh counts : Weights α).impurity features = some none) :
      Grown t p width depth samples (.leaf (weigh counts))
  | split {depth : ℕ} {samples low high features : List ℕ} {counts : Weights ℕ} {s : Split α}
      {lowTree highTree : Growth α} (hcounts : counts? t samples = some counts)
      (hgoes : stops (α := α) p depth counts = false) (hfeatures : ∀ f ∈ features, f < width)
      (hbest : bestSplit? t p.minLeaf samples (weigh counts).impurity features = some (some s))
      (hsides : partition? t s samples = some (low, high))
      (hlow : Grown t p width (depth + 1) low lowTree)
      (hhigh : Grown t p width (depth + 1) high highTree) :
      Grown t p width depth samples
        (.split (weigh counts) s.feature s.threshold lowTree highTree)

variable {t : Training α} {p : Params} {width depth : ℕ} {samples : List ℕ}

/-- Growing one node: the features are drawn first, then the branches grow one after the other. -/
theorem grow_eq (stream : Stream) :
    grow t p width depth samples stream = (counts? t samples).bind fun counts =>
      if stops (α := α) p depth counts then some (.leaf (weigh counts), stream)
      else (bestSplit? t p.minLeaf samples (weigh counts : Weights α).impurity
          (candidates p.features width stream).1).bind fun
        | none => some (.leaf (weigh counts), (candidates p.features width stream).2)
        | some s => (partition? t s samples).bind fun sides =>
          if sides.1.length < samples.length ∧ sides.2.length < samples.length then
            (grow t p width (depth + 1) sides.1 (candidates p.features width stream).2).bind
              fun low => (grow t p width (depth + 1) sides.2 low.2).bind fun high =>
                some (.split (weigh counts) s.feature s.threshold low.1 high.1, high.2)
          else some (.leaf (weigh counts), (candidates p.features width stream).2) := by
  -- a value that may be missing passes the stream on
  have hlift {β γ : Type} (x : Option β) (f : β → StateT Stream Option γ) (r : Stream) :
      (liftM x >>= f) r = x.bind fun b => f b r := by
    cases x <;> rfl
  rw [grow, hlift]
  congr 1
  funext counts
  split
  · rfl
  · have hdraw {β : Type} (f : List ℕ → StateT Stream Option β) :
        ((fun r => some (candidates p.features width r)) >>= f : StateT Stream Option β) stream =
          f (candidates p.features width stream).1 (candidates p.features width stream).2 := rfl
    rw [hdraw, hlift]
    congr 1
    funext best
    cases best with
    | none => rfl
    | some s =>
      dsimp only
      rw [hlift]
      congr 1
      funext sides
      split <;> rfl

/-- Whatever is drawn, a tree grows node by node. No split leaves all samples on one side. -/
theorem grown_of_grow (hα : Separating α) {stream : Stream} {r : Growth α × Stream}
    (h : grow t p width depth samples stream = some r) : Grown t p width depth samples r.1 := by
  induction hn : samples.length using Nat.strong_induction_on
    generalizing depth samples stream r with
  | _ n ih =>
    rw [grow_eq] at h
    obtain ⟨counts, hcounts, h⟩ := Option.bind_eq_some_iff.1 h
    split at h
    · rename_i hstops
      obtain rfl := Option.some.inj h
      exact .leaf hcounts (.inl hstops)
    · rename_i hgoes
      obtain ⟨best, hbest, h⟩ := Option.bind_eq_some_iff.1 h
      have hfeatures := candidates_lt p.features width stream
      cases best with
      | none =>
        obtain rfl := Option.some.inj h
        exact .leaf hcounts (.inr ⟨_, hfeatures, hbest⟩)
      | some s =>
        obtain ⟨⟨low, high⟩, hsides, h⟩ := Option.bind_eq_some_iff.1 h
        have hshorter := (bestSplit?_spec hbest).2.2.shorter_sides hα hsides
        dsimp only at h
        rw [if_pos hshorter] at h
        obtain ⟨lowTree, hlow, h⟩ := Option.bind_eq_some_iff.1 h
        obtain ⟨highTree, hhigh, h⟩ := Option.bind_eq_some_iff.1 h
        obtain rfl := Option.some.inj h
        exact .split hcounts (Bool.eq_false_iff.2 hgoes) hfeatures hbest hsides
          (ih _ (hn ▸ hshorter.1) hlow rfl) (ih _ (hn ▸ hshorter.2) hhigh rfl)

/-- Growth does not fail on complete samples. -/
theorem exists_grow (h : t.Complete width samples) (stream : Stream) :
    ∃ r, grow t p width depth samples stream = some r := by
  induction hn : samples.length using Nat.strong_induction_on
    generalizing depth samples stream with
  | _ n ih =>
    have hcounts : counts? t samples = some (t.tally samples) :=
      counts?_eq_some_iff.2 ⟨fun i hi => (h i hi).1, rfl⟩
    rw [grow_eq, hcounts, Option.bind_some]
    split
    · exact ⟨_, rfl⟩
    · have hfeatures := candidates_lt p.features width stream
      obtain ⟨best, hbest⟩ := exists_bestSplit? h p.minLeaf
        (weigh (t.tally samples) : Weights α).impurity hfeatures
      rw [hbest, Option.bind_some]
      cases best with
      | none => exact ⟨_, rfl⟩
      | some s =>
        have hfeature := hfeatures _ (bestSplit?_spec hbest).1
        have hsides := partition?_eq_some_iff.2 ⟨fun i hi => (h i hi).2 _ hfeature, rfl, rfl⟩
        dsimp only
        rw [hsides, Option.bind_some]
        split
        · rename_i hshorter
          obtain ⟨low, hlow⟩ := ih _ (hn ▸ hshorter.1) (h.mono (List.filter_subset_self _)) _ rfl
          rw [hlow, Option.bind_some]
          obtain ⟨high, hhigh⟩ := ih _ (hn ▸ hshorter.2) (h.mono (List.filter_subset_self _)) _ rfl
          rw [hhigh]
          exact ⟨_, rfl⟩
        · exact ⟨_, rfl⟩

theorem grown_of_growth? (hα : Separating α) {stream : Stream} {g : Growth α}
    (h : growth? t p samples stream = some g) :
    ∃ first, t.rows[0]? = some first ∧ Grown t p first.length 0 samples g := by
  obtain ⟨first, hfirst, h⟩ := Option.bind_eq_some_iff.1 h
  refine ⟨first, hfirst, ?_⟩
  split at h
  · obtain ⟨counts, hcounts, hg⟩ := Option.bind_eq_some_iff.1 h
    obtain rfl := Option.some.inj hg
    -- without a feature there is nothing to try
    exact .leaf hcounts (.inr ⟨[], by simp, rfl⟩)
  · obtain ⟨r, hr, hg⟩ := Option.bind_eq_some_iff.1 h
    obtain rfl := Option.some.inj hg
    exact grown_of_grow hα hr

theorem exists_growth? {first : List α} (hfirst : t.rows[0]? = some first)
    (h : t.Complete first.length samples) (stream : Stream) :
    ∃ g, growth? t p samples stream = some g := by
  have hcounts : counts? t samples = some (t.tally samples) :=
    counts?_eq_some_iff.2 ⟨fun i hi => (h i hi).1, rfl⟩
  obtain ⟨r, hr⟩ : ∃ r, grow t p first.length 0 samples stream = some r := exists_grow h stream
  rw [growth?, hfirst]
  dsimp only [bind, Option.bind_some]
  split
  · rw [hcounts]
    exact ⟨_, rfl⟩
  · rw [hr]
    exact ⟨_, rfl⟩

end ClauseTriage.Cart
