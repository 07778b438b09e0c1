import ClauseTriage.Proofs.Double.Places
import ClauseTriage.Proofs.Selection.Rounds

/-!
# The winner of a round

The scores of a round are compared in the order of the pool, each with the best one so far. So the
winner is the first of those candidates that have a score above zero and that no other one exceeds.
A score that is not a number exceeds nothing, and nothing exceeds it.
-/
namespace ClauseTriage

open Scalar

variable {α ε : Type} [Scalar α]

namespace Search

/-- A score above zero that no number among the scores exceeds. -/
def Best (candidates : List (String × α)) (c : String × α) : Prop :=
  lt zero c.2 = true ∧ ∀ d ∈ candidates, isNaN d.2 = false → lt c.2 d.2 = false

/-- The first candidate with such a score. -/
def FirstBest (candidates : List (String × α)) (c : String × α) : Prop :=
  ∃ before after, candidates = before ++ c :: after ∧ Best candidates c ∧
    ∀ d ∈ before, ¬Best candidates d

variable {candidates before after : List (String × α)} {c d v w : String × α}

theorem FirstBest.unique (hv : FirstBest candidates v) (hw : FirstBest candidates w) : v = w := by
  obtain ⟨before, after, rfl, hbest, hfirst⟩ := hv
  obtain ⟨before', after', heq, hbest', hfirst'⟩ := hw
  rcases List.append_eq_append_iff.1 heq with ⟨middle, rfl, hrest⟩ | ⟨middle, rfl, hrest⟩
  · cases middle with
    | nil => exact (List.cons.inj hrest).1
    | cons first middle =>
      obtain rfl := (List.cons.inj hrest).1
      exact absurd hbest (hfirst' v (by simp))
  · cases middle with
    | nil => exact (List.cons.inj hrest).1.symm
    | cons first middle =>
      obtain rfl := (List.cons.inj hrest).1
      exact absurd hbest' (hfirst w (by simp))

theorem winner?_append (candidates : List (String × α)) (c : String × α) :
    winner? (candidates ++ [c]) = better (winner? candidates) c := by
  rw [winner?, List.foldl_append]
  rfl

variable [Placed α]

/-- No score exceeds the best one. -/
theorem not_bestScore_lt (candidates : List (String × α)) :
    ∀ d ∈ candidates, lt (bestScore (winner? candidates)) d.2 = false := by
  induction candidates using List.reverseRecOn with
  | nil => exact fun d hd => absurd hd List.not_mem_nil
  | append_singleton candidates c ih =>
    rw [winner?_append, better]
    split
    · rename_i hbetter
      intro d hd
      rcases List.mem_append.1 hd with hd | hd
      · rw [Bool.eq_false_iff]
        intro hlt
        exact absurd (Placed.lt_trans hbetter hlt) (Bool.eq_false_iff.1 (ih d hd))
      · rw [List.mem_singleton.1 hd]
        exact Placed.lt_irrefl c.2
    · rename_i hworse
      intro d hd
      rcases List.mem_append.1 hd with hd | hd
      · exact ih d hd
      · rw [List.mem_singleton.1 hd]
        exact Bool.eq_false_iff.2 hworse

/-- A winner is above zero and above every number before it. -/
theorem exists_of_winner? (h : winner? candidates = some w) :
    lt zero w.2 = true ∧ ∃ before after, candidates = before ++ w :: after ∧
      ∀ d ∈ before, isNaN d.2 = false → lt d.2 w.2 = true := by
  induction candidates using List.reverseRecOn generalizing w with
  | nil => cases h
  | append_singleton candidates c ih =>
    rw [winner?_append, better] at h
    split at h
    · rename_i hbetter
      obtain rfl := Option.some.inj h
      refine ⟨?_, candidates, [], rfl, fun d hd hnumber => ?_⟩
      · cases hwinner : winner? candidates with
        | none => rwa [hwinner] at hbetter
        | some v =>
          rw [hwinner] at hbetter
          exact Placed.lt_trans (ih hwinner).1 hbetter
      · exact Placed.lt_of_not_lt_of_lt hnumber (not_bestScore_lt candidates d hd) hbetter
    · obtain ⟨hpositive, before, after, rfl, hbefore⟩ := ih h
      exact ⟨hpositive, before, after ++ [c], by simp, hbefore⟩

/-- The winner is the first of the best candidates. -/
theorem firstBest_of_winner? (h : winner? candidates = some w) : FirstBest candidates w := by
  have hnone := not_bestScore_lt candidates
  rw [h] at hnone
  obtain ⟨hpositive, before, after, rfl, hbefore⟩ := exists_of_winner? h
  refine ⟨before, after, rfl, ⟨hpositive, fun d hd _ => hnone d hd⟩, fun d hd hbest => ?_⟩
  have hless := hbefore d hd (Placed.lt_iff.1 hbest.1).2.1
  rw [hbest.2 w (by simp) (Placed.lt_iff.1 hpositive).2.1] at hless
  cases hless

theorem winner?_eq_some_iff : winner? candidates = some w ↔ FirstBest candidates w := by
  refine ⟨firstBest_of_winner?, fun h => ?_⟩
  obtain ⟨before, after, rfl, hbest, -⟩ := id h
  cases hwinner : winner? (before ++ w :: after) with
  | some v => rw [h.unique (firstBest_of_winner? hwinner)]
  | none =>
    have := not_bestScore_lt (before ++ w :: after) w (by simp)
    rw [hwinner, bestScore, hbest.1] at this
    cases this

/-- No candidate wins exactly when no score is above zero. -/
theorem winner?_eq_none_iff : winner? candidates = none ↔ ∀ c ∈ candidates, lt zero c.2 = false := by
  constructor
  · intro h
    have := not_bestScore_lt candidates
    rwa [h] at this
  · intro h
    by_contra hsome
    obtain ⟨w, hw⟩ := Option.ne_none_iff_exists'.1 hsome
    have := (exists_of_winner? hw).1
    rw [h w (winner?_mem hw)] at this
    cases this

/-- Scores that are not numbers can be left out. -/
theorem winner?_filter (candidates : List (String × α)) :
    winner? (candidates.filter fun c => !isNaN c.2) = winner? candidates := by
  rw [winner?, List.foldl_filter, winner?]
  congr 1
  funext best c
  split
  · rfl
  · rename_i hnan
    have hworse : lt (bestScore best) c.2 = false := by
      rw [Bool.eq_false_iff]
      intro hlt
      simp [(Placed.lt_iff.1 hlt).2.1] at hnan
    rw [better, hworse, if_neg Bool.false_ne_true]

end Search

namespace Round.Follows

variable [Placed α] {score : List String → Except ε α} {target : ℕ} {pool chosen : List String}
  {r : Round α}

theorem winner_eq_some_iff (h : r.Follows score target pool chosen) {w : String} {b : α} :
    r.winner = some w ∧ r.best = b ↔ Search.FirstBest r.candidates (w, b) := by
  rw [← Search.winner?_eq_some_iff, h.winner, h.best]
  cases hw : Search.winner? r.candidates with
  | none => simp
  | some v => simp [Search.bestScore, Prod.ext_iff]

theorem winner_eq_none_iff (h : r.Follows score target pool chosen) :
    r.winner = none ↔ ∀ c ∈ r.candidates, lt zero c.2 = false := by
  rw [h.winner, Option.map_eq_none_iff, Search.winner?_eq_none_iff]

theorem best_eq_zero_iff (h : r.Follows score target pool chosen) :
    r.best = zero ↔ ∀ c ∈ r.candidates, lt zero c.2 = false := by
  rw [← Search.winner?_eq_none_iff, h.best]
  cases hw : Search.winner? r.candidates with
  | none => simp [Search.bestScore]
  | some v =>
    refine iff_of_false (fun hzero => ?_) (by simp)
    have hpositive := (Search.exists_of_winner? hw).1
    rw [Search.bestScore] at hzero
    rw [hzero, Placed.lt_irrefl] at hpositive
    cases hpositive

end Round.Follows

namespace Search

variable [Placed α] {score : List String → Except ε α} {target : ℕ} {pool chosen : List String}
  {s : Selection α}

/-- In every round of a search, the winner is the first candidate in the order of the pool that has
a score above zero and that no number exceeds, and the best score is its own. There is no winner, and
the best score is zero, exactly when no score is above zero. A score that is not a number neither
wins nor changes what wins. -/
theorem run_winners (score : List String → Except ε α) (target : ℕ) (pool : List String)
    (s : Selection α) (h : run score target pool = .ok s) :
    ∀ r ∈ s.rounds,
      (r.candidates.map Prod.fst).Sublist pool ∧
      (∀ w b, r.winner = some w ∧ r.best = b ↔ FirstBest r.candidates (w, b)) ∧
      (r.winner = none ↔ ∀ c ∈ r.candidates, lt zero c.2 = false) ∧
      (r.best = zero ↔ ∀ c ∈ r.candidates, lt zero c.2 = false) ∧
      (∀ w, r.winner = some w → isNaN r.best = false) ∧
      let numbers := r.candidates.filter fun c => !isNaN c.2
      r.winner = (winner? numbers).map Prod.fst ∧ r.best = bestScore (winner? numbers) := by
  obtain ⟨first, -, hrun⟩ := run_eq_ok h
  intro r hr
  obtain ⟨before, hround⟩ := hrun.exists_follows hr
  refine ⟨?_, fun w b => hround.winner_eq_some_iff, hround.winner_eq_none_iff,
    hround.best_eq_zero_iff, fun w hw => ?_, ?_, ?_⟩
  · rw [hround.names]
    exact List.filter_sublist
  · obtain ⟨-, -, -, hbest, -⟩ := hround.winner_eq_some_iff.1 ⟨hw, rfl⟩
    exact (Placed.lt_iff.1 hbest.1).2.1
  · rw [winner?_filter, hround.winner]
  · rw [winner?_filter, hround.best]

/-- One score is not a number, one is minus infinity, and of two equal ones the first wins. -/
theorem run_winners_tie :
    let score : List String → Except Unit Float := fun features =>
      .ok (if features = ["a", "b"] then 0.0 / 0.0 else if features = ["a", "c"] then -1.0 / 0.0
        else 2.0)
    ∃ s, run score 2 ["a", "b", "c", "d", "e"] = .ok s ∧ ∃ r ∈ s.rounds, r.winner = some "d" ∧
      FirstBest r.candidates ("d", r.best) ∧ Scalar.isNaN r.best = false := by
  intro score
  have hrun : (run score 2 ["a", "b", "c", "d", "e"]).toOption.map
      (fun s => s.rounds.map Round.winner) = some [some "d"] := by
    decide +kernel
  obtain ⟨s, hs, hwinners⟩ := exists_of_toOption_map hrun
  obtain ⟨r, hr, hwinner⟩ : ∃ r ∈ s.rounds, r.winner = some "d" :=
    List.mem_map.1 (by rw [hwinners]; exact List.mem_singleton_self _)
  obtain ⟨-, hfirst, -, -, hnumber, -⟩ := run_winners score 2 _ s hs r hr
  exact ⟨s, hs, r, hr, hwinner, (hfirst "d" r.best).1 ⟨hwinner, rfl⟩, hnumber "d" hwinner⟩

end Search

end ClauseTriage
