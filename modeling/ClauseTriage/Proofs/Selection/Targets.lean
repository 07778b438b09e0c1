import ClauseTriage.Proofs.Selection.Rounds

/-!
# Searches for fewer features

The target only says when a search stops. So a search for fewer features takes the same rounds until
it has them, and where it ends for another reason a larger target makes no difference.
-/
namespace ClauseTriage

variable {α ε : Type}

/-- A selection has the first features and the first rounds of another one, as many features as a
target takes. Where the target is not met, it is the other one, with its outcome. -/
structure Selection.Begins (target : ℕ) (s t : Selection α) : Prop where
  chosen : s.chosen <+: t.chosen
  length : s.chosen.length = min target t.chosen.length
  rounds : s.rounds <+: t.rounds
  same : s.chosen.length < target → s = t

namespace Selection.Begins

variable {target : ℕ} {s t : Selection α} {chosen : List String}

theorem self (h : s.chosen.length ≤ target) : s.Begins target s :=
  ⟨List.prefix_rfl, (Nat.min_eq_right h).symm, List.prefix_rfl, fun _ => rfl⟩

/-- A search that has its features stops. -/
theorem stop (hlength : chosen.length = target) (h : chosen <+: s.chosen) :
    (⟨chosen, .complete, []⟩ : Selection α).Begins target s :=
  ⟨h, hlength.trans (Nat.min_eq_left (hlength ▸ h.length_le)).symm, List.nil_prefix,
    fun hless => absurd hlength hless.ne⟩

theorem cons (h : s.Begins target t) (r : Round α) :
    ({ s with rounds := r :: s.rounds } : Selection α).Begins target
      { t with rounds := r :: t.rounds } :=
  ⟨h.chosen, h.length, List.cons_prefix_cons.2 ⟨rfl, h.rounds⟩, fun hless => by rw [h.same hless]⟩

end Selection.Begins

namespace Search

variable {score : List String → Except ε α} {target fewer : ℕ} {pool chosen : List String}
  {r : Round α} {s : Selection α}

theorem scoreAll_eq_ok {scored : List (String × α)}
    (h : ∀ c ∈ scored, score (chosen ++ [c.1]) = .ok c.2) :
    scoreAll score chosen (scored.map Prod.fst) = .ok scored := by
  induction scored with
  | nil => rfl
  | cons c scored ih =>
    obtain ⟨hc, hrest⟩ := List.forall_mem_cons.1 h
    rw [List.map_cons, scoreAll, hc, ih hrest]
    rfl

variable [Scalar α] {number : ℕ} {w : String}

theorem rounds_of_complete (h : target ≤ chosen.length) :
    rounds score target pool number chosen = .ok ⟨chosen, .complete, []⟩ := by
  rw [rounds, if_pos h]

theorem rounds_of_exhausted (hmissing : chosen.length < target) (h : pool ⊆ chosen) :
    rounds score target pool number chosen = .ok ⟨chosen, .exhausted, []⟩ := by
  rw [rounds, if_neg hmissing.not_ge, if_pos (remaining_isEmpty_iff.2 h)]

/-- A round is taken where it can be, and a search goes on behind its winner. -/
theorem rounds_of_follows (h : r.Follows score target pool chosen) :
    rounds score target pool chosen.length chosen =
      match r.winner with
      | none => .ok ⟨chosen, .stalled r.number, [r]⟩
      | some w => (rounds score target pool (chosen ++ [w]).length (chosen ++ [w])).map
          fun s => { s with rounds := r :: s.rounds } := by
  have hscored : scoreAll score chosen (remaining pool chosen) = .ok r.candidates := by
    rw [← h.names]
    exact scoreAll_eq_ok h.scores
  have hr : r = ⟨chosen.length, r.candidates, (winner? r.candidates).map Prod.fst,
      bestScore (winner? r.candidates)⟩ := by
    rw [← h.number, ← h.winner, ← h.best]
  rw [rounds, if_neg h.missing.not_ge, if_neg (mt remaining_isEmpty_iff.1 h.remains), h.winner,
    h.number]
  split
  · rename_i e he
    rw [hscored] at he
    cases he
  · rename_i scored hs
    obtain rfl := Except.ok.inj (hscored.symm.trans hs)
    split
    · rename_i hnone
      rw [hnone] at hr ⊢
      rw [hr]
      rfl
    · rename_i w hw
      rw [hw] at hr ⊢
      dsimp only [Option.map_some]
      rw [List.length_append, List.length_singleton]
      cases rounds score target pool (chosen.length + 1) (chosen ++ [w.1]) with
      | error e => rfl
      | ok s =>
        rw [hr]
        rfl

theorem rounds_of_stalled (h : r.Follows score target pool chosen) (hnone : r.winner = none) :
    rounds score target pool chosen.length chosen = .ok ⟨chosen, .stalled r.number, [r]⟩ := by
  rw [rounds_of_follows h, hnone]

theorem rounds_of_winner (h : r.Follows score target pool chosen) (hwinner : r.winner = some w) :
    rounds score target pool chosen.length chosen =
      (rounds score target pool (chosen ++ [w]).length (chosen ++ [w])).map
        fun s => { s with rounds := r :: s.rounds } := by
  rw [rounds_of_follows h, hwinner]

/-- What a search can take is what it takes. -/
theorem rounds_of_continues (h : Continues score target pool chosen s) :
    rounds score target pool chosen.length chosen = .ok s := by
  induction h with
  | complete h => exact rounds_of_complete h
  | exhausted hmissing h => exact rounds_of_exhausted hmissing h
  | stalled hround hnone => exact rounds_of_stalled hround hnone
  | round hround hwinner hrest ih =>
    rw [rounds_of_winner hround hwinner, ih]
    rfl

theorem run_eq_ok_iff : run score target pool = .ok s ↔
    ∃ first, pool.head? = some first ∧ Continues score target pool [first] s := by
  refine ⟨run_eq_ok, ?_⟩
  rintro ⟨first, hfirst, h⟩
  cases pool with
  | nil => cases hfirst
  | cons head rest =>
    obtain rfl := Option.some.inj hfirst
    exact rounds_of_continues h

/-- With a smaller target a search takes the same rounds until it stops. -/
theorem Continues.of_le (h : Continues score target pool chosen s) (hle : fewer ≤ target)
    (hchosen : chosen.length ≤ fewer) :
    ∃ t, Continues score fewer pool chosen t ∧ t.Begins fewer s := by
  have hstop {chosen : List String} (hchosen : chosen.length ≤ fewer)
      (hmet : ¬chosen.length < fewer) {s : Selection α} (h : chosen <+: s.chosen) :
      ∃ t, Continues score fewer pool chosen t ∧ t.Begins fewer s :=
    ⟨_, .complete (not_lt.1 hmet), .stop (le_antisymm hchosen (not_lt.1 hmet)) h⟩
  induction h with
  | complete h => exact ⟨_, .complete (hle.trans h), .self hchosen⟩
  | @exhausted chosen hmissing h =>
    by_cases hfewer : chosen.length < fewer
    · exact ⟨_, .exhausted hfewer h, .self hchosen⟩
    · exact hstop hchosen hfewer List.prefix_rfl
  | @stalled chosen r hround hnone =>
    by_cases hfewer : chosen.length < fewer
    · exact ⟨_, .stalled { hround with missing := hfewer } hnone, .self hchosen⟩
    · exact hstop hchosen hfewer List.prefix_rfl
  | @round chosen r w s hround hwinner hrest ih =>
    by_cases hfewer : chosen.length < fewer
    · obtain ⟨t, ht, hbegins⟩ := ih (by rwa [List.length_append, List.length_singleton])
      exact ⟨_, .round { hround with missing := hfewer } hwinner ht, hbegins.cons r⟩
    · refine hstop hchosen hfewer ?_
      rw [hrest.chosen_eq, List.append_assoc]
      exact List.prefix_append _ _

/-- Where a search succeeds, so does one for fewer features, at least one. It chooses the first of
the same features, as many as it is asked for, in the first of the same rounds. Where there are not
that many, both searches end with the same selection. -/
theorem run_of_le (score : List String → Except ε α) (pool : List String) (hpos : 1 ≤ fewer)
    (hle : fewer ≤ target) (h : run score target pool = .ok s) :
    ∃ t, run score fewer pool = .ok t ∧ t.chosen <+: s.chosen ∧
      t.chosen.length = min fewer s.chosen.length ∧ t.rounds <+: s.rounds ∧
      (t.chosen.length < fewer → t = s) := by
  obtain ⟨first, hfirst, hrun⟩ := run_eq_ok h
  obtain ⟨t, ht, hbegins⟩ := hrun.of_le hle hpos
  exact ⟨t, run_eq_ok_iff.2 ⟨first, hfirst, ht⟩, hbegins.chosen, hbegins.length, hbegins.rounds,
    hbegins.same⟩

/-- The search for four features stalls after three, and the one for two has the first two. -/
theorem run_of_le_two :
    let score : List String → Except Unit Float := fun features =>
      .ok (if features.length = 4 then 0.0 else 1.0)
    ∃ s t, run score 4 ["a", "b", "c", "d"] = .ok s ∧ s.chosen = ["a", "b", "c"] ∧
      run score 2 ["a", "b", "c", "d"] = .ok t ∧ t.chosen = ["a", "b"] ∧ t.rounds <+: s.rounds := by
  intro score
  have hrun : (run score 4 ["a", "b", "c", "d"]).toOption.map Selection.chosen =
      some ["a", "b", "c"] := by
    decide +kernel
  obtain ⟨s, hs, hchosen⟩ := exists_of_toOption_map hrun
  obtain ⟨t, ht, hfirst, hlength, hrounds, -⟩ :=
    run_of_le score ["a", "b", "c", "d"] (by decide : 1 ≤ 2) (by decide : 2 ≤ 4) hs
  rw [List.prefix_iff_eq_take, hlength, hchosen] at hfirst
  exact ⟨s, t, hs, hchosen, ht, hfirst, hrounds⟩

end Search

end ClauseTriage
