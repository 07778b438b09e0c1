import ClauseTriage.FeatureFilter
import ClauseTriage.Run.Holdout
import ClauseTriage.Selection.Ranking
import ClauseTriage.Settings

/-!
# Training one cluster

The rows of a cluster are split, the features ranked and searched, and a final model fitted and
scored.
-/
namespace ClauseTriage

/-- What came of one cluster. -/
structure ClusterReport where
  cluster : Nat
  rows : Nat
  features : List String
  /-- None where the features were given. -/
  ranking : Option Ranking
  selection : Option (Selection Float)
  test : Scores Float
  train : Scores Float
  testConfusion : Option Confusion
  trainConfusion : Option Confusion
  /-- The form of the final model that can be written as source. -/
  model : Option Model

/-- Settings, data and fitter of a run's clusters. -/
structure Trainer where
  settings : Settings
  fitter : Fitter
  data : Dataset
  candidates : List String

namespace Trainer

def filter (t : Trainer) : FeatureFilter := ⟨t.settings.dropRdb1⟩

/-- The seed of a cluster. -/
def seed (t : Trainer) (cluster : Nat) : UInt64 := t.settings.seed + cluster.toUInt64

/-- Split and fitter of a cluster with some rows. -/
def holdout (t : Trainer) (cluster : Nat) (rows : List Nat) : Holdout :=
  { data := t.data
    split := Split.ofRows rows t.settings.testFraction (t.seed cluster)
    fitter := t.fitter
    family := t.settings.family
    seed := t.seed cluster }

/-- The candidates by their importance in a broad forest on the training rows. -/
def ranking? (t : Trainer) (h : Holdout) : Except RunError Ranking := do
  let rows ← orFail .dataset (t.data.rows? t.candidates h.split.train)
  let labels ← orFail .dataset (t.data.labelsAt? h.split.train)
  let c ← orFail .fit (t.fitter ⟨.ranking, t.settings.family, rows, labels, h.seed⟩)
  let importances := (c.importances? t.candidates.length).getD
    (List.replicate t.candidates.length (.ofFloat 0.0))
  return .ofImportances t.candidates importances t.settings.poolSize

/-- The given features, or those that the search chooses. -/
def features? (t : Trainer) (h : Holdout) :
    Except RunError (List String × Option Ranking × Option (Selection Float)) :=
  match t.settings.fixedFeatures with
  | some features => .ok (t.filter.fixed features, none, none)
  | none => do
    let ranking ← t.ranking? h
    let s ← orFail .search (Search.run h.score? t.settings.target ranking.pool)
    return (s.chosen, some ranking, some s)

/-- The confusion matrix of predictions, if matrices are asked for. -/
def confusion? (t : Trainer) (p : Predictions) : Except FitError (Option Confusion) :=
  if t.settings.confusion then
    match Confusion.ofLists? p.truth p.predicted with
    | some m => .ok (some m)
    | none => .error .missingEntry
  else .ok none

/-- Trains one cluster. -/
def train? (t : Trainer) (cluster : Nat) (rows : List Nat) : Except RunError ClusterReport := do
  let h := t.holdout cluster rows
  let (features, ranking, selection) ← t.features? h
  let c ← orFail .fit (h.fit? features)
  let test ← orFail .fit (h.predictions? c features h.split.test)
  let train ← orFail .fit (h.predictions? c features h.split.train)
  return {
    cluster, features, ranking, selection
    rows := rows.length
    test := ← orFail .fit (Holdout.scores? test)
    train := ← orFail .fit (Holdout.scores? train)
    testConfusion := ← orFail .fit (t.confusion? test)
    trainConfusion := ← orFail .fit (t.confusion? train)
    model := c.form? }

end Trainer

end ClauseTriage
