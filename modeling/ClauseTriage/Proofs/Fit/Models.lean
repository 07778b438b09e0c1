import ClauseTriage.Fit.Fitter
import ClauseTriage.Proofs.Fit.Trees

/-!
# What fitted models test

The members of a fitted model are fitted trees, so all of them test features that the rows have.
-/
namespace ClauseTriage

open Cart ClauseTriage.Random

variable {t : Training Float} {p : Params} {width : ℕ}

/-- A fitted tree tests features of the rows it was fitted to. -/
theorem features_lt_of_fitTree {samples : List ℕ} {s : Stream} {tree : Tree Float}
    (hrows : ∀ row ∈ t.rows, row.length = width) (h : fitTree t p samples s = .ok tree) :
    ∀ f ∈ tree.features, f < width := by
  obtain ⟨-, g, hgrowth, htree⟩ := fitTree_eq_ok_iff.1 h
  obtain ⟨first, hfirst, hgrown⟩ := grown_of_growth? separating_float hgrowth
  rw [hrows first (Array.mem_of_getElem? hfirst)] at hgrown
  intro f hf
  obtain ⟨e, he, hfeature⟩ := List.mem_filterMap.1 hf
  rw [Growth.arena_eq htree] at he
  obtain ⟨i, hi⟩ := List.mem_iff_getElem?.1 he
  rcases Growth.getElem?_entries hgrown.allTests (by simpa [Growth.arena] using hi) with
    ⟨w, rfl⟩ | ⟨right, feature, threshold, w, rfl, -, -, htest, -⟩
  · cases hfeature
  · split at hfeature
    · cases hfeature
    · obtain rfl := Option.some.inj hfeature
      simpa using htest

/-- Members are fitted trees. -/
theorem exists_fitTree_of_fitForest {members : ℕ} {seed : UInt64} {e : Ensemble}
    (h : fitForest t p members seed = .ok e) :
    ∀ tree ∈ e.members, ∃ samples s, fitTree t p samples s = .ok tree := by
  unfold fitForest at h
  simp only [refuse_eq_ok_iff, bind_eq_ok_iff] at h
  obtain ⟨-, trees, htrees, h⟩ := h
  have hmembers : e.members = trees := by
    unfold Ensemble.ofList? at h
    split at h
    · rename_i hensemble
      split at hensemble
      · cases hensemble
      · rw [← Except.ok.inj h, ← Except.ok.inj hensemble]
    · cases h
  intro tree htree
  rw [hmembers] at htree
  obtain ⟨index, -, hmember⟩ := exists_left_of_forall₂ (mapM_eq_ok_iff.1 htrees) tree htree
  exact ⟨_, _, hmember⟩

/-- Whatever is asked for, the trees of a model are fitted to the rows of the request. -/
theorem TreeFitter.exists_fitTree_of_model? {f : TreeFitter} {r : FitRequest} {m : Model}
    (h : f.model? r = .ok m) : ∀ tree ∈ m.trees, ∃ p samples s,
      fitTree ⟨r.rows.toArray, r.labels.toArray⟩ p samples s = .ok tree := by
  have hforest {p : Params} {members : ℕ} {m : Model}
      (h : ∃ e, fitForest ⟨r.rows.toArray, r.labels.toArray⟩ p members r.seed = .ok e ∧
        (pure (.ensemble e) : Except FitError Model) = .ok m) :
      ∀ tree ∈ m.trees, ∃ p samples s,
        fitTree ⟨r.rows.toArray, r.labels.toArray⟩ p samples s = .ok tree := by
    obtain ⟨e, he, hm⟩ := h
    obtain rfl := Except.ok.inj hm
    exact fun tree htree => ⟨p, exists_fitTree_of_fitForest he tree htree⟩
  unfold model? at h
  simp only [refuse_eq_ok_iff] at h
  obtain ⟨-, h⟩ := h
  split at h
  · exact hforest (bind_eq_ok_iff.1 h)
  · exact hforest (bind_eq_ok_iff.1 h)
  · obtain ⟨tree, htree, hm⟩ := bind_eq_ok_iff.1 h
    obtain rfl := Except.ok.inj hm
    intro tree' hmem
    obtain rfl := List.mem_singleton.1 hmem
    exact ⟨_, _, _, htree⟩
  · cases h

/-- A model that is fitted to rows of one length tests none but their features. -/
theorem TreeFitter.features_lt_of_model? {f : TreeFitter} {r : FitRequest} {m : Model}
    (hrows : ∀ row ∈ r.rows, row.length = width) (h : f.model? r = .ok m) :
    ∀ tree ∈ m.trees, ∀ feature ∈ tree.features, feature < width := by
  intro tree htree
  obtain ⟨p, samples, s, hfit⟩ := exists_fitTree_of_model? h tree htree
  exact features_lt_of_fitTree (by simpa using hrows) hfit

end ClauseTriage
