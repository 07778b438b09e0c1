import ClauseTriage.Fit.Fitter
import ClauseTriage.Random.Weighted

/-!
# Clusters by Lloyd's method

Centers are seeded among the points, each with a chance in proportion to its squared distance from
those before it. Then points are assigned to the nearest center and centers move to the mean of
their points, until no label changes.
-/
namespace ClauseTriage.Lloyd

open ClauseTriage.Random Scalar

section

variable {α : Type} [Scalar α]

/-- One step of the scan for a label. The distance to beat is the largest finite number until a
center is nearer. -/
def nearerLabel (best : Nat × Option α) (entry : α × Nat) : Nat × Option α :=
  let nearer := match best.2 with
    | none => belowLargest entry.1
    | some least => lt entry.1 least
  if nearer then (entry.2, some entry.1) else best

/-- The label of a point: the position of its nearest center, or 0 where there is none. -/
def labelOf (centers : List (List α)) (point : List α) : Nat :=
  ((centers.map fun c => squaredDistance c point).zipIdx.foldl nearerLabel (0, none)).1

/-- The label of each point. -/
def assign (centers points : List (List α)) : List Nat := points.map (labelOf centers)

/-- Adds a point to a sum, coordinate by coordinate. -/
def addPoint : List α → List α → List α
  | a :: sum, x :: point => (a + x) :: addPoint sum point
  | sum, _ => sum

/-- Points of one label. -/
def membersOf (points : List (List α)) (labels : List Nat) (label : Nat) : List (List α) :=
  ((points.zip labels).filter fun e => e.2 == label).map (·.1)

/-- The mean of the points of a center; without any the center stays. -/
def recenter (dimension : Nat) (center : List α) (members : List (List α)) : List α :=
  if members.isEmpty then center
  else (members.foldl addPoint (List.replicate dimension zero)).map (· / ofNat members.length)

/-- Moves every center to its points. -/
def recenterAll (dimension : Nat) (centers points : List (List α)) (labels : List Nat) :
    List (List α) :=
  centers.zipIdx.map fun (c, i) => recenter dimension c (membersOf points labels i)

/-- At most so many rounds. A round that changes no label is the last. -/
def iterate (dimension : Nat) (points : List (List α)) :
    Nat → List (List α) → List Nat → List (List α) × List Nat
  | 0, centers, labels => (centers, labels)
  | rounds + 1, centers, labels =>
    let moved := recenterAll dimension centers points labels
    let next := assign moved points
    if next = labels then (moved, labels) else iterate dimension points rounds moved next

end

/-- The least squared distance of a point from some centers. -/
def leastDistance (centers : List (List Float)) (p : List Float) : Float :=
  centers.foldl (fun least c =>
    let d := squaredDistance c p
    if d < least then d else least) (1.0 / 0.0)

/-- The chance of a point to be the next center; a distance that is not finite gives none. -/
def seedWeight (centers : List (List Float)) (p : List Float) : Float :=
  let d := leastDistance centers p
  if d.isFinite then d else 0.0

/-- Draws `missing` further centers; none where the weights cannot be summed. -/
def seedMore (points : Array (List Float)) :
    Nat → List (List Float) → StateT Stream Option (List (List Float))
  | 0, centers => return centers
  | missing + 1, centers => do
    let next ← match ← fun s => some (pick (points.toList.map (seedWeight centers)) s) with
      | .position i => pure i
      | .weightless => fun s => some (below64 points.size s)
      | .unbounded => failure
    seedMore points missing (centers ++ [points.getD next []])

/-- Centers to begin with. -/
def seed? (points : Array (List Float)) (clusters : Nat) (s : Stream) :
    Option (List (List Float)) :=
  let (first, s) := below64 points.size s
  (seedMore points (clusters - 1) [points.getD first []] s).map (·.1)

/-- Clusters some points. -/
def fit (rounds : Nat) : ClusterFitter := fun points clusters seed => do
  if points.isEmpty then throw .emptyTrainingSet
  if clusters = 0 ∨ points.length < clusters then throw (.tooFewRows clusters points.length)
  match seed? points.toArray clusters (.ofSeed seed) with
  | none => throw .unboundedWeights
  | some centers =>
    let dimension := (points.headD []).length
    let (centers, labels) := iterate dimension points rounds centers (assign centers points)
    match Centroids.ofList? centers with
    | .ok c => return ⟨c, labels⟩
    | .error e => throw (.invalidModel e)

/-- Rounds of a fit, if nothing else is asked for. -/
def defaultRounds : Nat := 300

end ClauseTriage.Lloyd
