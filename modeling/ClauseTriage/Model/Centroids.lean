import ClauseTriage.Model.Error

/-!
# Centroids

Points of one dimension, at least one. A point belongs to the centroid at the least squared
distance, the first of several.
-/
namespace ClauseTriage

variable {α : Type} [Scalar α]

open Scalar

/-- Sum of squared differences over the common length of two points. -/
def squaredDistance (a b : List α) : α := sum (List.zipWith (fun x y => (x - y) * (x - y)) a b)

/-- One step of the scan. The first distance has to be below the largest finite number, any later
one below the best so far. -/
def nearer (best : Option (Nat × α)) (entry : α × Nat) : Option (Nat × α) :=
  match best with
  | none => if belowLargest entry.1 then some (entry.2, entry.1) else none
  | some (i, d) => if lt entry.1 d then some (entry.2, entry.1) else some (i, d)

/-- Position of the least distance, if one is below the largest finite number. -/
def leastIndex? (distances : List α) : Option Nat :=
  (distances.zipIdx.foldl nearer none).map (·.1)

/-- Position of the center nearest to a point. -/
def closest? (centers : List (List α)) (point : List α) : Option Nat :=
  leastIndex? (centers.map fun c => squaredDistance c point)

/-- Centers of one dimension. -/
structure Centroids (α : Type) where
  centers : List (List α)
  nonempty : centers ≠ []
  uniform : ∀ c ∈ centers, c.length = (centers.head nonempty).length

namespace Centroids

/-- The first center whose dimension differs from that of the first one. -/
def ofList? (centers : List (List Float)) : Except ModelError (Centroids Float) :=
  if h : centers = [] then .error .noCentroids
  else
    let expected := (centers.head h).length
    match hf : centers.zipIdx.find? fun (c, _) => c.length != expected with
    | some (c, index) => .error (.centroidDimension index expected c.length)
    | none => .ok ⟨centers, h, fun c hc => by
        obtain ⟨i, hi, rfl⟩ := List.mem_iff_getElem.1 hc
        have := List.find?_eq_none.1 hf (centers[i], i)
          (by simp [List.mem_zipIdx_iff_getElem?, hi])
        simpa using this⟩

/-- Number of centers. -/
def count (c : Centroids α) : Nat := c.centers.length

def dimension (c : Centroids α) : Nat := (c.centers.head c.nonempty).length

/-- Position of the nearest center; none where no distance is below the largest finite number. -/
def closest? (c : Centroids α) (point : List α) : Option Nat :=
  ClauseTriage.closest? c.centers point

end Centroids

end ClauseTriage
