import ClauseTriage.Proofs.Selection.Targets
import ClauseTriage.Proofs.Selection.Winners

/-!
# Searches that fail

A trial that cannot be scored ends a search. Rounds follow one another as long as all their trials
succeed, so the failure that is reported is the first one, in the order of the pool, of the first
round that has any. What a trial would give in a round that is never reached makes no difference.
-/
namespace ClauseTriage

variable {α ε : Type}

namespace Search

section Trials

variable {score other : List String → Except ε α} {chosen names rest : List String}
  {name c : String} {cause : ε}

/-- The first of some candidates whose trial fails, and what its trial fails with. -/
def FirstFailure (score : List String → Except ε α) (chosen names : List String) (c : String)
    (cause : ε) : Prop :=
  ∃ before after, names = before ++ c :: after ∧
    (∀ d ∈ before, ∃ x, score (chosen ++ [d]) = .ok x) ∧ score (chosen ++ [c]) = .error cause

theorem not_firstFailure_nil : ¬FirstFailure score chosen [] c cause := by
  rintro ⟨before, after, h, -⟩
  simp at h

theorem firstFailure_cons : FirstFailure score chosen (name :: rest) c cause ↔
    (name = c ∧ score (chosen ++ [name]) = .error cause) ∨
      (∃ x, score (chosen ++ [name]) = .ok x) ∧ FirstFailure score chosen rest c cause := by
  constructor
  · rintro ⟨before, after, h, hbefore, hc⟩
    cases before with
    | nil =>
      obtain ⟨rfl, -⟩ := List.cons.inj h
      exact .inl ⟨rfl, hc⟩
    | cons d before =>
      obtain ⟨rfl, rfl⟩ := List.cons.inj h
      obtain ⟨hname, hbefore⟩ := List.forall_mem_cons.1 hbefore
      exact .inr ⟨hname, before, after, rfl, hbefore, hc⟩
  · rintro (⟨rfl, hc⟩ | ⟨hname, before, after, rfl, hbefore, hc⟩)
    · exact ⟨[], rest, rfl, by simp, hc⟩
    · exact ⟨name :: before, after, rfl, List.forall_mem_cons.2 ⟨hname, hbefore⟩, hc⟩

theorem FirstFailure.mem (h : FirstFailure score chosen names c cause) : c ∈ names := by
  obtain ⟨before, after, rfl, -⟩ := h
  simp

/-- Some trial is the first to fail where any trial fails. -/
theorem exists_firstFailure_iff : (∃ c cause, FirstFailure score chosen names c cause) ↔
    ∃ c ∈ names, ∃ cause, score (chosen ++ [c]) = .error cause := by
  induction names with
  | nil => simp [not_firstFailure_nil]
  | cons name rest ih =>
    cases hname : score (chosen ++ [name]) <;> simp [firstFailure_cons, hname, ih]

theorem FirstFailure.congr (h : FirstFailure score chosen names c cause)
    (hsame : ∀ d ∈ names, other (chosen ++ [d]) = score (chosen ++ [d])) :
    FirstFailure other chosen names c cause := by
  obtain ⟨before, after, rfl, hbefore, hc⟩ := h
  refine ⟨before, after, rfl, fun d hd => ?_, ?_⟩
  · rw [hsame d (by simp [hd])]
    exact hbefore d hd
  · rwa [hsame c (by simp)]

theorem scoreAll_eq_error_iff {e : SearchError ε} : scoreAll score chosen names = .error e ↔
    ∃ c cause, FirstFailure score chosen names c cause ∧ e = .scoring (chosen ++ [c]) cause := by
  induction names with
  | nil => simp [scoreAll, not_firstFailure_nil]
  | cons name rest ih =>
    cases hname : score (chosen ++ [name]) with
    | error cause => simp [scoreAll, firstFailure_cons, hname, eq_comm]
    | ok x =>
      simp only [firstFailure_cons, hname, Except.ok.injEq, exists_eq', reduceCtorEq, and_false,
        false_or, true_and, ← ih]
      rw [scoreAll, hname]
      exact map_eq_error_iff

end Trials

end Search

/-- A round is reported alike by scores that agree on its trials. -/
theorem Round.Follows.congr [Scalar α] {score other : List String → Except ε α} {target : ℕ}
    {pool chosen : List String} {r : Round α} (h : r.Follows score target pool chosen)
    (hsame : ∀ c ∈ Search.remaining pool chosen, other (chosen ++ [c]) = score (chosen ++ [c])) :
    r.Follows other target pool chosen := by
  refine { h with scores := fun c hc => ?_ }
  rw [hsame c.1 (h.names ▸ List.mem_map_of_mem hc)]
  exact h.scores c hc

namespace Search

section Replay

variable [Scalar α] {score other : List String → Except ε α} {target number : ℕ}
  {pool chosen next : List String} {c : String} {cause : ε}

theorem run_cons (score : List String → Except ε α) (target : ℕ) (first : String)
    (rest : List String) : run score target (first :: rest) =
      rounds score target (first :: rest) [first].length [first] :=
  rfl

theorem rounds_of_firstFailure (hmissing : chosen.length < target)
    (h : FirstFailure score chosen (remaining pool chosen) c cause) :
    rounds score target pool number chosen = .error (.scoring (chosen ++ [c]) cause) := by
  have hremains := not_subset_of_mem_remaining h.mem
  have hscored := scoreAll_eq_error_iff.2 ⟨c, cause, h, rfl⟩
  rw [rounds, if_neg hmissing.not_ge, if_neg (mt remaining_isEmpty_iff.1 hremains)]
  split
  · rename_i e he
    rw [hscored] at he
    rw [Except.error.inj he]
  · rename_i scored hs
    rw [hscored] at hs
    cases hs

/-- Induction along a search: what holds wherever a search stops, and before a round if it holds
behind the winner of the round, holds of any chosen features. -/
@[elab_as_elim]
theorem chosen_induction (score : List String → Except ε α) (target : ℕ) (pool : List String)
    {motive : List String → Prop}
    (complete : ∀ chosen, target ≤ chosen.length → motive chosen)
    (exhausted : ∀ chosen, chosen.length < target → pool ⊆ chosen → motive chosen)
    (failed : ∀ chosen c cause, chosen.length < target →
      FirstFailure score chosen (remaining pool chosen) c cause → motive chosen)
    (stalled : ∀ chosen (r : Round α), r.Follows score target pool chosen → r.winner = none →
      motive chosen)
    (round : ∀ chosen (r : Round α) w, r.Follows score target pool chosen → r.winner = some w →
      motive (chosen ++ [w]) → motive chosen) (chosen : List String) : motive chosen := by
  induction hn : (remaining pool chosen).length using Nat.strong_induction_on
    generalizing chosen with
  | _ n ih =>
    by_cases hcomplete : target ≤ chosen.length
    · exact complete chosen hcomplete
    by_cases hsubset : pool ⊆ chosen
    · exact exhausted chosen (not_le.1 hcomplete) hsubset
    cases hscored : scoreAll score chosen (remaining pool chosen) with
    | error e =>
      obtain ⟨c, cause, hfailure, -⟩ := scoreAll_eq_error_iff.1 hscored
      exact failed chosen c cause (not_le.1 hcomplete) hfailure
    | ok scored =>
      have hround := follows_of_scoreAll (not_le.1 hcomplete) hsubset hscored
      cases hwinner : winner? scored with
      | none => exact stalled chosen _ hround (by simp [hwinner])
      | some w =>
        have hw := hround.winner_remains (w := w.1) (by simp [hwinner])
        refine round chosen _ w.1 hround (by simp [hwinner]) (ih _ ?_ _ rfl)
        exact hn ▸ length_remaining_lt (mem_remaining.2 hw)

/-- A round whose trials all succeed adds the first of its best candidates. -/
inductive Adds (score : List String → Except ε α) (target : ℕ) (pool : List String) :
    List String → List String → Prop where
  | winner {chosen : List String} {scored : List (String × α)} {w : String × α}
      (hmissing : chosen.length < target) (hnames : scored.map Prod.fst = remaining pool chosen)
      (hscores : ∀ c ∈ scored, score (chosen ++ [c.1]) = .ok c.2) (hbest : FirstBest scored w) :
    Adds score target pool chosen (chosen ++ [w.1])

/-- A search comes to a round with some features chosen: the first of the pool, and one for each
round before. -/
def Reaches (score : List String → Except ε α) (target : ℕ) (pool chosen : List String) : Prop :=
  chosen.length < target ∧
    ∃ first, pool.head? = some first ∧ Relation.ReflTransGen (Adds score target pool) [first] chosen

variable [Placed α]

/-- The rounds that add a feature are those that are reported with a winner. -/
theorem adds_iff : Adds score target pool chosen next ↔
    ∃ (r : Round α) (w : String), r.Follows score target pool chosen ∧ r.winner = some w ∧
      next = chosen ++ [w] := by
  constructor
  · intro h
    cases h with
    | @winner scored w hmissing hnames hscores hbest =>
      have hwinner := winner?_eq_some_iff.2 hbest
      have hremains : ¬pool ⊆ chosen :=
        not_subset_of_mem_remaining (hnames ▸ List.mem_map_of_mem (winner?_mem hwinner))
      exact ⟨⟨chosen.length, scored, some w.1, w.2⟩, w.1, ⟨hmissing, hremains, rfl, hnames, hscores,
        by simp [hwinner], by simp [hwinner, bestScore]⟩, rfl, rfl⟩
  · rintro ⟨r, w, hround, hwinner, rfl⟩
    exact .winner hround.missing hround.names hround.scores
      (hround.winner_eq_some_iff.1 ⟨hwinner, rfl⟩)

/-- A search fails with the first failure of a round that it comes to. -/
theorem rounds_eq_error_iff {e : SearchError ε} :
    rounds score target pool chosen.length chosen = .error e ↔
      ∃ reached c cause, Relation.ReflTransGen (Adds score target pool) chosen reached ∧
        reached.length < target ∧ FirstFailure score reached (remaining pool reached) c cause ∧
        e = .scoring (reached ++ [c]) cause := by
  constructor
  · intro h
    induction chosen using chosen_induction score target pool with
    | complete chosen hcomplete =>
      rw [rounds_of_complete hcomplete] at h
      cases h
    | exhausted chosen hmissing hsubset =>
      rw [rounds_of_exhausted hmissing hsubset] at h
      cases h
    | failed chosen c cause hmissing hfailure =>
      rw [rounds_of_firstFailure hmissing hfailure] at h
      exact ⟨chosen, c, cause, .refl, hmissing, hfailure, (Except.error.inj h).symm⟩
    | stalled chosen r hround hnone =>
      rw [rounds_of_stalled hround hnone] at h
      cases h
    | round chosen r w hround hwinner ih =>
      rw [rounds_of_winner hround hwinner, map_eq_error_iff] at h
      obtain ⟨reached, c, cause, hreached, hfailure⟩ := ih h
      exact ⟨reached, c, cause, .head (adds_iff.2 ⟨r, w, hround, hwinner, rfl⟩) hreached, hfailure⟩
  · rintro ⟨reached, c, cause, hreached, hmissing, hfailure, rfl⟩
    -- from the round that fails back to the one the search begins with
    induction hreached using Relation.ReflTransGen.head_induction_on with
    | refl => exact rounds_of_firstFailure hmissing hfailure
    | head hadds _ ih =>
      obtain ⟨r, w, hround, hwinner, rfl⟩ := adds_iff.1 hadds
      rw [rounds_of_winner hround hwinner, ih]
      rfl

/-- A search depends on the trials of the rounds that it comes to, and on no other ones. -/
theorem rounds_congr (h : ∀ reached, Relation.ReflTransGen (Adds score target pool) chosen reached →
      reached.length < target → ∀ c ∈ remaining pool reached,
        other (reached ++ [c]) = score (reached ++ [c])) :
    rounds other target pool chosen.length chosen =
      rounds score target pool chosen.length chosen := by
  induction chosen using chosen_induction score target pool with
  | complete chosen hcomplete => rw [rounds_of_complete hcomplete, rounds_of_complete hcomplete]
  | exhausted chosen hmissing hsubset =>
    rw [rounds_of_exhausted hmissing hsubset, rounds_of_exhausted hmissing hsubset]
  | failed chosen c cause hmissing hfailure =>
    rw [rounds_of_firstFailure hmissing hfailure,
      rounds_of_firstFailure hmissing (hfailure.congr (h chosen .refl hmissing))]
  | stalled chosen r hround hnone =>
    have hround' := hround.congr (h chosen .refl hround.missing)
    rw [rounds_of_stalled hround hnone, rounds_of_stalled hround' hnone]
  | round chosen r w hround hwinner ih =>
    have hround' := hround.congr (h chosen .refl hround.missing)
    have hadds : Adds score target pool chosen (chosen ++ [w]) :=
      adds_iff.2 ⟨r, w, hround, hwinner, rfl⟩
    rw [rounds_of_winner hround hwinner, rounds_of_winner hround' hwinner,
      ih fun reached hreached => h reached (.head hadds hreached)]

theorem run_eq_error_iff {e : SearchError ε} : run score target pool = .error e ↔
    (pool = [] ∧ e = .emptyPool) ∨
      ∃ chosen c cause, Reaches score target pool chosen ∧
        FirstFailure score chosen (remaining pool chosen) c cause ∧
        e = .scoring (chosen ++ [c]) cause := by
  cases pool with
  | nil => simp [run, Reaches, eq_comm]
  | cons first rest =>
    simp only [run_cons, rounds_eq_error_iff, Reaches, reduceCtorEq, false_and, false_or,
      List.head?_cons, Option.some.injEq, exists_eq_left']
    exact exists_congr fun reached => exists_congr fun c => exists_congr fun cause => by tauto

/-- A search refuses an empty pool, and nothing else for that reason. It reports a failed trial
exactly where a round that it comes to has one: the features chosen before that round and the first
candidate in the order of the pool whose trial fails, with the cause of this trial, whatever the
scores of other candidates are. Scores that differ in trials of other rounds only give the same
result. -/
theorem run_failures (score : List String → Except ε α) (target : ℕ) (pool : List String) :
    (run score target pool = .error .emptyPool ↔ pool = []) ∧
    (∀ features cause, run score target pool = .error (.scoring features cause) ↔
      ∃ chosen c, Reaches score target pool chosen ∧
        FirstFailure score chosen (remaining pool chosen) c cause ∧ features = chosen ++ [c]) ∧
    ((∃ features cause, run score target pool = .error (.scoring features cause)) ↔
      ∃ chosen, Reaches score target pool chosen ∧
        ∃ c ∈ pool, c ∉ chosen ∧ ∃ cause, score (chosen ++ [c]) = .error cause) ∧
    ∀ other : List String → Except ε α,
      (∀ chosen, Reaches score target pool chosen → ∀ c ∈ pool, c ∉ chosen →
        other (chosen ++ [c]) = score (chosen ++ [c])) →
      run other target pool = run score target pool := by
  have hscoring (features : List String) (cause : ε) :
      run score target pool = .error (.scoring features cause) ↔
        ∃ chosen c, Reaches score target pool chosen ∧
          FirstFailure score chosen (remaining pool chosen) c cause ∧ features = chosen ++ [c] := by
    simp only [run_eq_error_iff, reduceCtorEq, and_false, false_or, SearchError.scoring.injEq]
    constructor
    · rintro ⟨chosen, c, _, hreached, hfailure, rfl, rfl⟩
      exact ⟨chosen, c, hreached, hfailure, rfl⟩
    · rintro ⟨chosen, c, hreached, hfailure, rfl⟩
      exact ⟨chosen, c, cause, hreached, hfailure, rfl, rfl⟩
  refine ⟨by simp [run_eq_error_iff], hscoring, ?_, fun other hsame => ?_⟩
  · constructor
    · rintro ⟨features, cause, h⟩
      obtain ⟨chosen, c, hreached, hfailure, -⟩ := (hscoring features cause).1 h
      obtain ⟨d, hd, failure⟩ := exists_firstFailure_iff.1 ⟨c, cause, hfailure⟩
      obtain ⟨hpool, hnew⟩ := mem_remaining.1 hd
      exact ⟨chosen, hreached, d, hpool, hnew, failure⟩
    · rintro ⟨chosen, hreached, c, hc, hnew, failure⟩
      obtain ⟨d, cause, hfailure⟩ :=
        exists_firstFailure_iff.2 ⟨c, mem_remaining.2 ⟨hc, hnew⟩, failure⟩
      exact ⟨_, cause, (hscoring _ cause).2 ⟨chosen, d, hreached, hfailure, rfl⟩⟩
  · cases pool with
    | nil => rfl
    | cons first rest =>
      rw [run_cons, run_cons]
      apply rounds_congr
      intro reached hreached hmissing c hc
      obtain ⟨hpool, hnew⟩ := mem_remaining.1 hc
      exact hsame reached ⟨hmissing, first, rfl, hreached⟩ c hpool hnew

/-- The second round is come to with the winner of the first one. There the last candidate is the
one that fails; a trial that would fail behind another winner is never made. -/
theorem run_failures_second_round :
    let score : List String → Except Unit Float := fun features =>
      if features = ["a", "c", "d"] ∨ features = ["a", "b", "c"] then .error ()
      else .ok (if features = ["a", "c"] then 2.0 else 1.0)
    Reaches score 3 ["a", "b", "c", "d"] ["a", "c"] ∧
      run score 3 ["a", "b", "c", "d"] = .error (.scoring ["a", "c", "d"] ()) := by
  intro score
  have hreached : Reaches score 3 ["a", "b", "c", "d"] ["a", "c"] := by
    refine ⟨by decide, "a", rfl, .single ?_⟩
    have hbest : FirstBest [("b", (1.0 : Float)), ("c", 2.0), ("d", 1.0)] ("c", 2.0) :=
      winner?_eq_some_iff.1 (by decide +kernel)
    exact .winner (by decide) (by decide) (by decide +kernel) hbest
  obtain ⟨-, hscoring, -⟩ := run_failures score 3 ["a", "b", "c", "d"]
  refine ⟨hreached, (hscoring _ _).2 ⟨_, "d", hreached, ?_, rfl⟩⟩
  exact ⟨["b"], [], by decide, by simp [score], by simp [score]⟩

end Replay

end Search

end ClauseTriage
