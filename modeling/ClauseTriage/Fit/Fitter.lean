import ClauseTriage.Family
import ClauseTriage.Fit.Forest
import ClauseTriage.Model.Centroids
import ClauseTriage.Selection.Importance
import ClauseTriage.Settings

/-!
# Fitters

What a run asks of the parts that fit models and clusters, and the fitter of trees and forests.
-/
namespace ClauseTriage

/-- What a model is fitted for. -/
inductive Purpose where
  /-- Its importances rank the features. -/
  | ranking
  /-- It is scored, and written as source. -/
  | final
  deriving DecidableEq, Repr

structure FitRequest where
  purpose : Purpose
  family : Family
  rows : List (List Float)
  labels : List Label
  seed : UInt64

/-- A fitted model as a run sees it. -/
structure Classifier where
  /-- Classes of rows; none where a row lacks a tested feature. -/
  predict? : List (List Float) → Option (List Label)
  importances? : Nat → Option (List Importance)
  /-- The form that can be written as source. -/
  form? : Option Model

abbrev Fitter := FitRequest → Except FitError Classifier

/-- Centers and the label of each point. -/
structure Clustering where
  centroids : Centroids Float
  labels : List Nat

abbrev ClusterFitter := List (List Float) → Nat → UInt64 → Except FitError Clustering

def Model.classifier (m : Model) : Classifier :=
  { predict? := fun rows => rows.mapM m.predict?
    importances? := fun width => some ((m.importances width).map .ofFloat)
    form? := some m }

/-- Fits trees and forests. -/
structure TreeFitter where
  maxDepth : Option Nat := none
  minSplit : Nat := 80
  rankingTrees : Nat := 80
  finalTrees : Nat := 5
  deriving DecidableEq, Repr

namespace TreeFitter

/-- The fitter that settings ask for. -/
def ofSettings (s : Settings) : TreeFitter := { maxDepth := s.treeDepth, minSplit := s.minSplit }

/-- Trees of forests are as deep as the size of their leaves allows. -/
def forestParams (f : TreeFitter) : Cart.Params :=
  { maxDepth := none, minSplit := 2, minLeaf := max 1 f.minSplit, features := .squareRoot }

def treeParams (f : TreeFitter) : Cart.Params :=
  { maxDepth := f.maxDepth, minSplit := max 2 f.minSplit, minLeaf := 1, features := .all }

/-- The model of a request. Rankings use a forest whatever the family is. -/
def model? (f : TreeFitter) (r : FitRequest) : Except FitError Model := do
  if r.rows.isEmpty then throw .emptyTrainingSet
  let t : Cart.Training Float := ⟨r.rows.toArray, r.labels.toArray⟩
  match r.purpose, r.family with
  | .ranking, _ => return .ensemble (← fitForest t f.forestParams f.rankingTrees r.seed)
  | .final, .forest => return .ensemble (← fitForest t f.forestParams f.finalTrees r.seed)
  | .final, .tree =>
    let samples := List.range r.rows.length
    return .single (← fitTree t f.treeParams samples (.ofSeed r.seed))
  | .final, family => throw (.unsupportedFamily family.name)

def fitter (f : TreeFitter) : Fitter := fun r => (f.model? r).map Model.classifier

end TreeFitter

end ClauseTriage
