import ClauseTriage.Scalar

/-!
# Greedy feature search

The first feature of a pool is chosen at once. Each round then scores every other feature together
with those chosen and chooses the best, the first of several, as long as its score is above zero.
-/
namespace ClauseTriage

/-- How a search ends. -/
inductive Outcome where
  /-- As many features as asked for. -/
  | complete
  /-- Every feature of the pool is chosen. -/
  | exhausted
  /-- No score of a round was above zero. -/
  | stalled (round : Nat)
  deriving DecidableEq, Repr

/-- One round: every score, and what was chosen. -/
structure Round (α : Type) where
  number : Nat
  candidates : List (String × α)
  winner : Option String
  best : α
  deriving Repr

structure Selection (α : Type) where
  chosen : List String
  outcome : Outcome
  rounds : List (Round α)
  deriving Repr

/-- Why a search gives no selection. -/
inductive SearchError (ε : Type) where
  | emptyPool
  | scoring (features : List String) (cause : ε)
  deriving Repr

namespace Search

variable {α ε : Type}

open Scalar

/-- Features of the pool that are not chosen. -/
def remaining (pool chosen : List String) : List String := pool.filter fun f => !chosen.contains f

/-- Scores of all candidates, each behind the chosen features; the first failure is reported. -/
def scoreAll (score : List String → Except ε α) (chosen : List String) :
    List String → Except (SearchError ε) (List (String × α))
  | [] => .ok []
  | c :: rest =>
    match score (chosen ++ [c]) with
    | .error e => .error (.scoring (chosen ++ [c]) e)
    | .ok x => (scoreAll score chosen rest).map ((c, x) :: ·)

theorem scoreAll_names {score : List String → Except ε α} {chosen names : List String}
    {scored : List (String × α)} (h : scoreAll score chosen names = .ok scored) :
    scored.map (·.1) = names := by
  induction names generalizing scored with
  | nil => simp_all [scoreAll]
  | cons c rest ih =>
    rw [scoreAll] at h
    split at h
    · simp at h
    · cases hr : scoreAll score chosen rest with
      | error e => simp [hr, Except.map] at h
      | ok tail =>
        simp only [hr, Except.map, Except.ok.injEq] at h
        subst h
        simp [ih hr]

/-- A chosen feature no longer remains. -/
theorem length_remaining_lt {pool chosen : List String} {w : String}
    (h : w ∈ remaining pool chosen) :
    (remaining pool (chosen ++ [w])).length < (remaining pool chosen).length := by
  have hsub : remaining pool (chosen ++ [w]) = (remaining pool chosen).filter (· != w) := by
    simp only [remaining, List.filter_filter]
    congr 1
    funext f
    cases hc : decide (f ∈ chosen) <;> cases hw : (f == w) <;> simp_all
  rw [hsub]
  exact List.length_filter_lt_length_iff_exists.2 ⟨w, h, by simp⟩

variable [Scalar α]

/-- The best score so far; zero at first. -/
def bestScore (best : Option (String × α)) : α :=
  match best with
  | none => zero
  | some b => b.2

/-- Keeps the better one, the first of several. -/
def better (best : Option (String × α)) (c : String × α) : Option (String × α) :=
  if lt (bestScore best) c.2 then some c else best

def winner? (candidates : List (String × α)) : Option (String × α) := candidates.foldl better none

theorem better_eq (best : Option (String × α)) (c : String × α) :
    better best c = some c ∨ better best c = best := by
  unfold better
  split
  · exact .inl rfl
  · exact .inr rfl

theorem foldl_better_mem {candidates : List (String × α)} {best : Option (String × α)}
    {w : String × α} (h : candidates.foldl better best = some w) :
    w ∈ candidates ∨ best = some w := by
  induction candidates generalizing best with
  | nil => exact .inr h
  | cons c rest ih =>
    rcases ih h with hw | hw
    · exact .inl (List.mem_cons_of_mem c hw)
    · rcases better_eq best c with hb | hb
      · rw [hb] at hw
        exact .inl (Option.some.inj hw ▸ List.mem_cons_self)
      · exact .inr (hb ▸ hw)

/-- A winner is one of the candidates. -/
theorem winner?_mem {candidates : List (String × α)} {w : String × α}
    (h : winner? candidates = some w) : w ∈ candidates :=
  (foldl_better_mem h).resolve_right (by simp)

/-- Rounds from a number on. -/
def rounds (score : List String → Except ε α) (target : Nat) (pool : List String) (number : Nat)
    (chosen : List String) : Except (SearchError ε) (Selection α) :=
  if target ≤ chosen.length then .ok ⟨chosen, .complete, []⟩
  else if (remaining pool chosen).isEmpty then .ok ⟨chosen, .exhausted, []⟩
  else
    match _hs : scoreAll score chosen (remaining pool chosen) with
    | .error e => .error e
    | .ok scored =>
      match _hw : winner? scored with
      | none => .ok ⟨chosen, .stalled number, [⟨number, scored, none, zero⟩]⟩
      | some w =>
        match rounds score target pool (number + 1) (chosen ++ [w.1]) with
        | .error e => .error e
        | .ok s => .ok { s with rounds := ⟨number, scored, some w.1, w.2⟩ :: s.rounds }
termination_by (remaining pool chosen).length
decreasing_by
  apply length_remaining_lt
  rw [← scoreAll_names _hs]
  exact List.mem_map_of_mem (winner?_mem _hw)

/-- Searches a pool for `target` features. -/
def run (score : List String → Except ε α) (target : Nat) (pool : List String) :
    Except (SearchError ε) (Selection α) :=
  match pool with
  | [] => .error .emptyPool
  | first :: _ => rounds score target pool 1 [first]

end Search

end ClauseTriage
