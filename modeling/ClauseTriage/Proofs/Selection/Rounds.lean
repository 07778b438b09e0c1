import ClauseTriage.Proofs.Attempts
import ClauseTriage.Selection.Search

/-!
# The rounds of a search

What a search reports when no score fails. It goes on while features are missing and some remain,
and every round but the last adds one that was not chosen before. So there are fewer rounds than
names in the pool, and what was chosen tells how the search ended.
-/
namespace ClauseTriage

variable {α ε : Type} [Scalar α]

/-- A round as it is reported, with some features chosen before it: features were missing, some
remained, and each of these was scored behind the chosen ones. -/
structure Round.Follows (score : List String → Except ε α) (target : ℕ) (pool chosen : List String)
    (r : Round α) : Prop where
  missing : chosen.length < target
  remains : ¬pool ⊆ chosen
  number : r.number = chosen.length
  names : r.candidates.map Prod.fst = Search.remaining pool chosen
  scores : ∀ c ∈ r.candidates, score (chosen ++ [c.1]) = .ok c.2
  winner : r.winner = (Search.winner? r.candidates).map Prod.fst
  best : r.best = Search.bestScore (Search.winner? r.candidates)

/-- What an outcome says of a selection. -/
def Outcome.Describes (target : ℕ) (pool : List String) (s : Selection α) : Outcome → Prop
  | complete => target ≤ s.chosen.length
  | exhausted => s.chosen.length < target ∧ pool ⊆ s.chosen
  | stalled number => ∃ r, s.rounds.getLast? = some r ∧ r.number = number ∧ r.winner = none

namespace Search

variable {score : List String → Except ε α} {target number : ℕ} {pool chosen : List String}
  {s : Selection α}

omit [Scalar α] in
/-- Every candidate stands with its score behind the chosen features. -/
theorem scoreAll_scores {names : List String} {scored : List (String × α)}
    (h : scoreAll score chosen names = .ok scored) :
    ∀ c ∈ scored, score (chosen ++ [c.1]) = .ok c.2 := by
  induction names generalizing scored with
  | nil =>
    obtain rfl := Except.ok.inj h
    exact fun c hc => absurd hc List.not_mem_nil
  | cons name names ih =>
    rw [scoreAll] at h
    split at h
    · cases h
    · rename_i x hx
      cases hrest : scoreAll score chosen names with
      | error e => simp [hrest, Except.map] at h
      | ok rest =>
        rw [hrest] at h
        obtain rfl := Except.ok.inj h
        exact List.forall_mem_cons.2 ⟨hx, ih hrest⟩

theorem mem_remaining {f : String} : f ∈ remaining pool chosen ↔ f ∈ pool ∧ f ∉ chosen := by
  simp [remaining]

theorem remaining_isEmpty_iff : (remaining pool chosen).isEmpty = true ↔ pool ⊆ chosen := by
  simp [List.isEmpty_iff, List.eq_nil_iff_forall_not_mem, mem_remaining, List.subset_def]

theorem not_subset_of_mem_remaining {f : String} (h : f ∈ remaining pool chosen) :
    ¬pool ⊆ chosen := by
  obtain ⟨hf, hnew⟩ := mem_remaining.1 h
  exact fun hsubset => hnew (hsubset hf)

end Search

namespace Round.Follows

variable {score : List String → Except ε α} {target : ℕ} {pool chosen : List String} {r : Round α}
  {w : String}

/-- A winner is one of the candidates, and the best score is its own. -/
theorem mem_candidates (h : r.Follows score target pool chosen) (hw : r.winner = some w) :
    (w, r.best) ∈ r.candidates := by
  obtain ⟨best, hbest, rfl⟩ := Option.map_eq_some_iff.1 (h.winner.symm.trans hw)
  rw [h.best, hbest]
  exact Search.winner?_mem hbest

/-- A winner is a feature of the pool that was not chosen before. -/
theorem winner_remains (h : r.Follows score target pool chosen) (hw : r.winner = some w) :
    w ∈ pool ∧ w ∉ chosen := by
  rw [← Search.mem_remaining, ← h.names]
  exact List.mem_map_of_mem (h.mem_candidates hw)

end Round.Follows

namespace Search

variable {score : List String → Except ε α} {target number : ℕ} {pool chosen : List String}
  {s : Selection α}

/-- How a search goes on from some chosen features, round by round. -/
inductive Continues (score : List String → Except ε α) (target : ℕ) (pool : List String) :
    List String → Selection α → Prop where
  | complete {chosen : List String} (h : target ≤ chosen.length) :
      Continues score target pool chosen ⟨chosen, .complete, []⟩
  | exhausted {chosen : List String} (hmissing : chosen.length < target) (h : pool ⊆ chosen) :
      Continues score target pool chosen ⟨chosen, .exhausted, []⟩
  | stalled {chosen : List String} {r : Round α} (hround : r.Follows score target pool chosen)
      (hnone : r.winner = none) :
      Continues score target pool chosen ⟨chosen, .stalled r.number, [r]⟩
  | round {chosen : List String} {r : Round α} {w : String} {s : Selection α}
      (hround : r.Follows score target pool chosen) (hwinner : r.winner = some w)
      (hrest : Continues score target pool (chosen ++ [w]) s) :
      Continues score target pool chosen { s with rounds := r :: s.rounds }

/-- A round whose trials all succeed. -/
theorem follows_of_scoreAll {scored : List (String × α)} (hmissing : chosen.length < target)
    (hremains : ¬pool ⊆ chosen) (h : scoreAll score chosen (remaining pool chosen) = .ok scored) :
    (⟨chosen.length, scored, (winner? scored).map Prod.fst, bestScore (winner? scored)⟩ :
      Round α).Follows score target pool chosen :=
  ⟨hmissing, hremains, rfl, scoreAll_names h, scoreAll_scores h, rfl, rfl⟩

/-- Rounds are numbered by how many features are chosen before them. -/
theorem continues_of_rounds (h : rounds score target pool number chosen = .ok s)
    (hnumber : number = chosen.length) : Continues score target pool chosen s := by
  fun_induction rounds score target pool number chosen generalizing s with
  | case1 number chosen hcomplete =>
    obtain rfl := Except.ok.inj h
    exact .complete hcomplete
  | case2 number chosen hmissing hempty =>
    obtain rfl := Except.ok.inj h
    exact .exhausted (Nat.lt_of_not_le hmissing) (remaining_isEmpty_iff.1 hempty)
  | case3 => cases h
  | case4 number chosen hmissing hempty scored hscored hnone =>
    obtain rfl := Except.ok.inj h
    have hround := follows_of_scoreAll (Nat.lt_of_not_le hmissing)
      (mt remaining_isEmpty_iff.2 hempty) hscored
    rw [hnone, ← hnumber] at hround
    exact .stalled hround rfl
  | case5 => cases h
  | case6 number chosen hmissing hempty scored hscored w hw rest hrest ih =>
    obtain rfl := Except.ok.inj h
    have hround := follows_of_scoreAll (Nat.lt_of_not_le hmissing)
      (mt remaining_isEmpty_iff.2 hempty) hscored
    rw [hw, ← hnumber] at hround
    exact .round hround rfl (ih hrest (by rw [List.length_append, hnumber, List.length_singleton]))

theorem run_eq_ok (h : run score target pool = .ok s) :
    ∃ first, pool.head? = some first ∧ Continues score target pool [first] s := by
  cases pool with
  | nil => cases h
  | cons first rest => exact ⟨first, rfl, continues_of_rounds h rfl⟩

namespace Continues

/-- What is chosen are the features chosen before and the winners, in order. -/
theorem chosen_eq (h : Continues score target pool chosen s) :
    s.chosen = chosen ++ s.rounds.filterMap Round.winner := by
  induction h with
  | complete | exhausted => exact (List.append_nil _).symm
  | stalled hround hnone => simp [hnone]
  | round hround hwinner hrest ih => simp [ih, hwinner]

theorem nodup (h : Continues score target pool chosen s) (hchosen : chosen.Nodup) :
    s.chosen.Nodup := by
  induction h with
  | complete | exhausted | stalled => exact hchosen
  | round hround hwinner hrest ih =>
    rw [← List.concat_eq_append] at ih
    exact ih (hchosen.concat (hround.winner_remains hwinner).2)

theorem subset (h : Continues score target pool chosen s) (hchosen : chosen ⊆ pool) :
    s.chosen ⊆ pool := by
  induction h with
  | complete | exhausted | stalled => exact hchosen
  | round hround hwinner hrest ih =>
    refine ih (List.append_subset.2 ⟨hchosen, ?_⟩)
    exact List.cons_subset.2 ⟨(hround.winner_remains hwinner).1, List.nil_subset _⟩

/-- Every round follows the features that were chosen when it began; its winner is chosen next, and
the round after which none is chosen is the last. -/
theorem getElem?_rounds (h : Continues score target pool chosen s) {i : ℕ} {r : Round α}
    (hr : s.rounds[i]? = some r) :
    r.Follows score target pool (s.chosen.take (chosen.length + i)) ∧
      r.number = chosen.length + i ∧ r.winner = s.chosen[chosen.length + i]? ∧
      (r.winner = none → i + 1 = s.rounds.length) := by
  induction h generalizing i with
  | complete | exhausted => cases hr
  | stalled hround hnone =>
    cases i with
    | zero =>
      obtain rfl := Option.some.inj hr
      simpa [hnone] using ⟨hround, hround.number⟩
    | succ i => cases hr
  | @round chosen r' w s hround hwinner hrest ih =>
    cases i with
    | zero =>
      obtain rfl := Option.some.inj hr
      simp [hrest.chosen_eq, hwinner, hround, hround.number]
    | succ i =>
      have := ih hr
      rw [List.length_append, List.length_singleton, Nat.add_assoc, Nat.add_comm 1] at this
      simpa using this

theorem exists_follows (h : Continues score target pool chosen s) {r : Round α}
    (hr : r ∈ s.rounds) : ∃ before, r.Follows score target pool before := by
  obtain ⟨i, hi⟩ := List.mem_iff_getElem?.1 hr
  exact ⟨_, (h.getElem?_rounds hi).1⟩

/-- How a search ended. -/
theorem describes (h : Continues score target pool chosen s) : s.outcome.Describes target pool s := by
  induction h with
  | complete h => exact h
  | exhausted hmissing h => exact ⟨hmissing, h⟩
  | stalled hround hnone => exact ⟨_, rfl, rfl, hnone⟩
  | @round chosen r w s hround hwinner hrest ih =>
    dsimp only
    cases houtcome : s.outcome with
    | complete | exhausted =>
      rw [houtcome] at ih
      exact ih
    | stalled number =>
      rw [houtcome] at ih
      obtain ⟨last, hlast, hnumber, hnone⟩ := ih
      exact ⟨last, by simp [List.getLast?_cons, hlast], hnumber, hnone⟩

/-- After a last round without a winner, features are missing and some remain. -/
theorem of_last_none (h : Continues score target pool chosen s) {r : Round α}
    (hlast : s.rounds.getLast? = some r) (hnone : r.winner = none) :
    s.chosen.length < target ∧ ¬pool ⊆ s.chosen := by
  rw [List.getLast?_eq_getElem?] at hlast
  obtain ⟨hround, -, hwinner, -⟩ := h.getElem?_rounds hlast
  rw [hnone, eq_comm, List.getElem?_eq_none_iff] at hwinner
  rw [← List.take_of_length_le hwinner]
  exact ⟨hround.missing, hround.remains⟩

/-- No two outcomes describe a search. -/
theorem describes_unique (h : Continues score target pool chosen s) {a b : Outcome}
    (ha : a.Describes target pool s) (hb : b.Describes target pool s) : a = b := by
  have hstalled {n : ℕ} (hn : (Outcome.stalled n).Describes target pool s) :
      s.chosen.length < target ∧ ¬pool ⊆ s.chosen := by
    obtain ⟨r, hlast, -, hnone⟩ := hn
    exact h.of_last_none hlast hnone
  cases a with
  | complete =>
    cases b with
    | complete => rfl
    | exhausted => exact absurd ha (Nat.not_le_of_lt hb.1)
    | stalled n => exact absurd ha (Nat.not_le_of_lt (hstalled hb).1)
  | exhausted =>
    cases b with
    | complete => exact absurd hb (Nat.not_le_of_lt ha.1)
    | exhausted => rfl
    | stalled n => exact absurd ha.2 (hstalled hb).2
  | stalled n =>
    cases b with
    | complete => exact absurd hb (Nat.not_le_of_lt (hstalled ha).1)
    | exhausted => exact absurd hb.2 (hstalled ha).2
    | stalled m =>
      obtain ⟨r, hlast, rfl, -⟩ := ha
      obtain ⟨r', hlast', rfl, -⟩ := hb
      rw [Option.some.inj (hlast.symm.trans hlast')]

/-- The features chosen before and the rounds are no more than the names of the pool: a round
begins while a name is missing, and chooses one. -/
theorem length_add_rounds_le (h : Continues score target pool chosen s) (hnodup : chosen.Nodup)
    (hsubset : chosen ⊆ pool) : chosen.length + s.rounds.length ≤ pool.dedup.length := by
  have hle {names : List String} (hnodup : names.Nodup) (hsubset : names ⊆ pool) :
      names.length ≤ pool.dedup.length :=
    (hnodup.subperm fun f hf => List.mem_dedup.2 (hsubset hf)).length_le
  induction h with
  | complete | exhausted => exact hle hnodup hsubset
  | @stalled chosen r hround hnone =>
    -- a feature of the pool that is not chosen
    obtain ⟨f, hf, hnew⟩ : ∃ f ∈ pool, f ∉ chosen := by
      simpa [List.subset_def] using hround.remains
    exact hle (hnodup.cons hnew) (List.cons_subset.2 ⟨hf, hsubset⟩)
  | @round chosen r w s hround hwinner hrest ih =>
    obtain ⟨hw, hnew⟩ := hround.winner_remains hwinner
    have hnext := ih (List.concat_eq_append ▸ hnodup.concat hnew)
      (List.append_subset.2 ⟨hsubset, List.cons_subset.2 ⟨hw, List.nil_subset _⟩⟩)
    rw [List.length_append, List.length_singleton] at hnext
    rw [List.length_cons]
    omega

/-- After the last winner, what is chosen is what the winner was scored with. -/
theorem last_winner (h : Continues score target pool chosen s)
    (hsome : ∃ r ∈ s.rounds, r.winner ≠ none) :
    ∃ earlier r later w, s.rounds = earlier ++ r :: later ∧ r.winner = some w ∧
      (∀ x ∈ later, x.winner = none) ∧ (w, r.best) ∈ r.candidates ∧
      s.chosen = chosen ++ earlier.filterMap Round.winner ++ [w] ∧ score s.chosen = .ok r.best := by
  induction h with
  | complete | exhausted => simp at hsome
  | stalled hround hnone => simp [hnone] at hsome
  | @round chosen r w s hround hwinner hrest ih =>
    by_cases hlater : ∃ x ∈ s.rounds, x.winner ≠ none
    · obtain ⟨earlier, x, later, v, hrounds, hx, hnone, hmem, hchosen, hscore⟩ := ih hlater
      exact ⟨r :: earlier, x, later, v, by simp [hrounds], hx, hnone, hmem,
        by simp [hchosen, hwinner], hscore⟩
    · push Not at hlater
      have hwinners : s.rounds.filterMap Round.winner = [] := by
        simpa [List.filterMap_eq_nil_iff] using hlater
      have hchosen : s.chosen = chosen ++ [w] := by rw [hrest.chosen_eq, hwinners, List.append_nil]
      have hmem := hround.mem_candidates hwinner
      refine ⟨[], r, s.rounds, w, rfl, hwinner, hlater, hmem, ?_, ?_⟩
      · simpa using hchosen
      · dsimp only
        rw [hchosen]
        exact hround.scores _ hmem

end Continues

/-- A search that succeeds begins with the first feature of the pool, chooses none twice and none
from outside, and has fewer rounds than the pool has names. Its rounds are numbered from one; each
scores, in the order of the pool, the features that are not chosen yet behind those that are, and
its winner is chosen next; only the last may be without one. The outcome is the one that describes
what was chosen. -/
theorem run_reports (score : List String → Except ε α) (target : ℕ) (pool : List String)
    (s : Selection α) (h : run score target pool = .ok s) :
    s.rounds.length < pool.dedup.length ∧
    (∃ first, pool.head? = some first ∧ s.chosen.head? = some first) ∧
    s.chosen.Nodup ∧ s.chosen ⊆ pool ∧ s.chosen.tail = s.rounds.filterMap Round.winner ∧
    (∀ i r, s.rounds[i]? = some r →
      r.number = i + 1 ∧
      r.candidates.map Prod.fst = pool.filter (· ∉ s.chosen.take (i + 1)) ∧
      (∀ c ∈ r.candidates, score (s.chosen.take (i + 1) ++ [c.1]) = .ok c.2) ∧
      r.winner = s.chosen[i + 1]? ∧ (r.winner = none → i + 1 = s.rounds.length)) ∧
    ∀ o : Outcome, s.outcome = o ↔ o.Describes target pool s := by
  obtain ⟨first, hfirst, hrun⟩ := run_eq_ok h
  have hsubset : [first] ⊆ pool :=
    List.cons_subset.2 ⟨List.mem_of_mem_head? hfirst, List.nil_subset _⟩
  have hbound := hrun.length_add_rounds_le (List.nodup_singleton first) hsubset
  rw [List.length_singleton] at hbound
  refine ⟨by omega, ⟨first, hfirst, ?_⟩, hrun.nodup (List.nodup_singleton first),
    hrun.subset hsubset, ?_, ?_, ?_⟩
  · rw [hrun.chosen_eq]
    rfl
  · rw [hrun.chosen_eq]
    rfl
  · intro i r hr
    obtain ⟨hround, hnumber, hwinner, hlast⟩ := hrun.getElem?_rounds hr
    rw [List.length_singleton, Nat.add_comm] at hround hnumber hwinner
    refine ⟨hnumber, ?_, hround.scores, hwinner, hlast⟩
    rw [hround.names, remaining]
    simp
  · intro o
    constructor
    · rintro rfl
      exact hrun.describes
    · exact fun ho => hrun.describes_unique hrun.describes ho

/-- A pool that repeats a name. The second round scores the last feature left, and stalls. -/
theorem run_reports_stall :
    let score : List String → Except Unit Float := fun features =>
      .ok (if features = ["a", "c"] then 2.0 else if features = ["a", "b"] then 1.0 else 0.0)
    ∃ s, run score 4 ["a", "b", "a", "c"] = .ok s ∧ s.chosen = ["a", "c"] ∧
      s.outcome = .stalled 2 ∧ s.rounds.length < ["a", "b", "a", "c"].dedup.length ∧
      ∃ r, s.rounds[1]? = some r ∧ r.number = 2 ∧ r.candidates.map Prod.fst = ["b"] ∧
        r.winner = none := by
  intro score
  have hrun : (run score 4 ["a", "b", "a", "c"]).toOption.map
      (fun s => (s.chosen, s.outcome, s.rounds.length)) = some (["a", "c"], .stalled 2, 2) := by
    decide +kernel
  obtain ⟨s, hs, hreport⟩ := exists_of_toOption_map hrun
  simp only [Prod.mk.injEq] at hreport
  obtain ⟨hchosen, houtcome, hlength⟩ := hreport
  obtain ⟨hfewer, -, -, -, -, hrounds, -⟩ := run_reports score 4 _ s hs
  obtain ⟨r, hr⟩ : ∃ r, s.rounds[1]? = some r := ⟨_, List.getElem?_eq_getElem (by omega)⟩
  obtain ⟨hnumber, hnames, -, hwinner, -⟩ := hrounds 1 r hr
  refine ⟨s, hs, hchosen, houtcome, hfewer, r, hr, hnumber, ?_, ?_⟩
  · rw [hnames, hchosen]
    decide
  · rw [hwinner, hchosen]
    rfl

end Search

end ClauseTriage
