import ClauseTriage.Random.Weighted
import Mathlib

/-!
# The range of random numbers

A number drawn below a bound is below it, and a weighted pick is a position of the weights.
-/
namespace ClauseTriage.Random

/-- The high half of a word times a bound is below the bound. -/
theorem mul_div_pow2_lt {word width bound : Nat} (hw : word < pow2 width) (hb : 0 < bound) :
    word * bound / pow2 width < bound := by
  rw [Nat.div_lt_iff_lt_mul (pow2_pos width), Nat.mul_comm bound]
  exact Nat.mul_lt_mul_of_pos_right hw hb

/-- One try: the number of an accepted word, or that of the next try. -/
theorem drawBelow_succ (word : Draw Nat) (width bound tries : Nat) (s : Stream) :
    drawBelow word width bound (tries + 1) s =
      if (word s).1 * bound % pow2 width ≤ bound * pow2 (width - (bound.log2 + 1)) - 1 then
        ((word s).1 * bound / pow2 width, (word s).2)
      else drawBelow word width bound tries (word s).2 := by
  change (if _ then pure _ else drawBelow word width bound tries : Draw Nat) (word s).2 = _
  split <;> rfl

theorem drawBelow_lt {word : Draw Nat} {width bound : Nat} (hw : ∀ s, (word s).1 < pow2 width)
    (hb : 0 < bound) (tries : Nat) (s : Stream) : (drawBelow word width bound tries s).1 < bound := by
  induction tries generalizing s with
  | zero => exact mul_div_pow2_lt (hw s) hb
  | succ tries ih =>
    rw [drawBelow_succ]
    split
    · exact mul_div_pow2_lt (hw s) hb
    · exact ih _

theorem below32_lt {bound : Nat} (hb : 0 < bound) (s : Stream) : (below32 bound s).1 < bound :=
  drawBelow_lt (fun s => (word32 s).1.toNat_lt) hb _ s

theorem below64_lt {bound : Nat} (hb : 0 < bound) (s : Stream) : (below64 bound s).1 < bound :=
  drawBelow_lt (fun s => (word64 s).1.toNat_lt) hb _ s

/-- There is one running sum for each weight but the last. -/
theorem runningSums_length (total : Float) (weights : List Float) :
    (runningSums total weights).1.length = weights.length := by
  induction weights generalizing total with
  | nil => rfl
  | cons w rest ih => simp [runningSums, ih]

theorem pick_lt {weights : List Float} {i : Nat} {s : Stream}
    (h : (pick weights s).1 = .position i) : i < weights.length := by
  cases weights with
  | nil => simp [pick, pure, StateT.pure] at h
  | cons w rest =>
    simp only [pick] at h
    split at h
    · simp [pure, StateT.pure] at h
    · split at h
      · simp [pure, StateT.pure] at h
      · have hi : _ = i := Pick.position.inj h
        rw [← hi, List.length_cons, Nat.lt_succ_iff, ← runningSums_length w rest]
        exact List.countP_le_length

end ClauseTriage.Random
