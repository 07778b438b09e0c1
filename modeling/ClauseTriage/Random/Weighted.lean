import ClauseTriage.Random.Draw
import ClauseTriage.Scalar

/-!
# Weighted picks

A position drawn with a probability in proportion to its weight.
-/
namespace ClauseTriage.Random

/-- Running sums of all weights but the last, and their total. -/
def runningSums (total : Float) : List Float → List Float × Float
  | [] => ([], total)
  | w :: rest =>
    let (sums, all) := runningSums (total + w) rest
    (total :: sums, all)

/-- The next smaller double of a positive one. -/
def nextBelow (x : Float) : Float := Float.ofBits (x.toBits - 1)

/-- One less than the least double above one. -/
def largestFraction : Float := Float.ofBits 0x3feffffffffffffe

/-- The largest scale that keeps every draw below the total. -/
def scaleFor (total : Float) : Nat → Float → Float
  | 0, scale => scale
  | steps + 1, scale =>
    if scale * largestFraction ≥ total then scaleFor total steps (nextBelow scale) else scale

/-- A double in `[0, 1)` with 52 random bits. -/
def fraction : Draw Float := do
  let bits := (← word64) >>> 12
  return Float.ofBits (bits ||| 0x3ff0000000000000) - 1.0

/-- What became of a weighted pick. -/
inductive Pick where
  | position (i : Nat)
  /-- There is no weight at all. -/
  | weightless
  /-- The sum of the weights is not finite. -/
  | unbounded
  deriving DecidableEq, Repr

/-- Counts the running sums that a draw reaches. -/
def pick (weights : List Float) : Draw Pick :=
  match weights with
  | [] => return .weightless
  | w :: rest => do
    let (sums, total) := runningSums w rest
    if total == 0.0 then return .weightless
    else if !total.isFinite then return .unbounded
    else
      let v := (← fraction) * scaleFor total 64 total
      return .position (sums.countP (· ≤ v))

end ClauseTriage.Random
