import ClauseTriage.Fit.Fitter
import ClauseTriage.Run.Error
import ClauseTriage.Score.Scores
import ClauseTriage.Table.Split

/-!
# Scoring on held-out rows

A model of the final family is fitted on the training rows of a cluster and scored on its test rows.
-/
namespace ClauseTriage

/-- What the scores of one cluster depend on, features apart. -/
structure Holdout where
  data : Dataset
  split : Split
  fitter : Fitter
  family : Family
  seed : UInt64

/-- Predictions of a model with the classes of the same rows. -/
structure Predictions where
  truth : List Label
  predicted : List Label
  deriving DecidableEq, Repr

namespace Holdout

/-- A dataset's fault as seen by a fitter. -/
def fault : DatasetError → FitError
  | .unknownFeature name => .unknownFeature name
  | _ => .missingEntry

def rows? (h : Holdout) (features : List String) (rows : List Nat) :
    Except FitError (List (List Float)) :=
  orFail fault (h.data.rows? features rows)

def labels? (h : Holdout) (rows : List Nat) : Except FitError (List Label) :=
  orFail fault (h.data.labelsAt? rows)

/-- Fits a model on some features of the training rows. -/
def fit? (h : Holdout) (features : List String) : Except FitError Classifier := do
  let rows ← h.rows? features h.split.train
  let labels ← h.labels? h.split.train
  h.fitter ⟨.final, h.family, rows, labels, h.seed⟩

/-- The predictions of a model for some rows. -/
def predictions? (h : Holdout) (c : Classifier) (features : List String) (rows : List Nat) :
    Except FitError Predictions := do
  let truth ← h.labels? rows
  match c.predict? (← h.rows? features rows) with
  | some predicted => return ⟨truth, predicted⟩
  | none => throw .missingEntry

/-- Scores of predictions. -/
def scores? (p : Predictions) : Except FitError (Scores Float) :=
  match Scores.ofLists? p.truth p.predicted with
  | some s => .ok s
  | none => .error .missingEntry

/-- The score of a list of features. -/
def score? (h : Holdout) (features : List String) : Except FitError Float := do
  let c ← h.fit? features
  let p ← h.predictions? c features h.split.test
  return (← scores? p).total

end Holdout

end ClauseTriage
