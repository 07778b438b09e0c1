import ClauseTriage.Powers
import ClauseTriage.Random.Stream

/-!
# Drawing numbers and orders

Uniform numbers below a bound, shuffles, and samples without repetition.
-/
namespace ClauseTriage.Random

/-- Multiplies a word by the bound and keeps the high half; a word whose low half lies past the last
full zone is drawn again. Each try succeeds with a chance of at least one half, and the last one is
taken as it is. -/
def drawBelow (word : Draw Nat) (width bound : Nat) : Nat → Draw Nat
  | 0 => do return (← word) * bound / pow2 width
  | tries + 1 => do
    let product := (← word) * bound
    let zone := bound * pow2 (width - (bound.log2 + 1)) - 1
    if product % pow2 width ≤ zone then return product / pow2 width
    else drawBelow word width bound tries

/-- Tries of one draw. -/
def tryLimit : Nat := 1024

/-- A number below the bound from 32-bit words. -/
def below32 (bound : Nat) : Draw Nat :=
  drawBelow (do return (← word32).toNat) 32 bound tryLimit

/-- A number below the bound from 64-bit words. -/
def below64 (bound : Nat) : Draw Nat :=
  drawBelow (do return (← word64).toNat) 64 bound tryLimit

/-- Exchanges each position, from `last` down, with one that is not after it. -/
def shuffleFrom {α : Type} : Nat → Array α → Draw (Array α)
  | 0, xs => return xs
  | last + 1, xs => do
    let j ← below32 (last + 2)
    shuffleFrom last (xs.swapIfInBounds (last + 1) j)

/-- A random order. -/
def shuffle {α : Type} (xs : List α) : Draw (List α) := do
  return (← shuffleFrom (xs.length - 1) xs.toArray).toList

/-- A random order of a seed. -/
def shuffled {α : Type} (seed : UInt64) (xs : List α) : List α :=
  (shuffle xs (Stream.ofSeed seed)).1

/-- Exchanges each of the first positions with one that is not before it. -/
def selectInPlace (size : Nat) : Nat → Nat → Array Nat → Draw (Array Nat)
  | 0, _, xs => return xs
  | count + 1, i, xs => do
    let j ← below32 (size - i)
    selectInPlace size count (i + 1) (xs.swapIfInBounds i (i + j))

/-- Draws a number up to each of the last positions; one drawn before gives its place to the
position. -/
def selectFloyd : List Nat → List Nat → Draw (List Nat)
  | [], picked => return picked
  | j :: rest, picked => do
    let t ← below32 (j + 1)
    match picked.idxOf? t with
    | some place => selectFloyd rest (picked.insertIdx place j)
    | none => selectFloyd rest (picked ++ [t])

/-- `count` different numbers below `size`. Many of few are taken from a list of all numbers. -/
def sample (size count : Nat) : Draw (List Nat) :=
  if 11 < count ∧ 45 * size < (8 + 72 * count) * count then do
    let xs ← selectInPlace size count 0 (Array.range size)
    return (xs.toList.take count)
  else selectFloyd (List.range' (size - count) count) []

end ClauseTriage.Random
