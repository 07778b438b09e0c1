import ClauseTriage.Decimal.Fixed
import ClauseTriage.Run.Plan

/-!
# Summaries of runs
-/
namespace ClauseTriage

open Text

/-- How the features of a cluster were found. -/
def ClusterReport.searchLabel (r : ClusterReport) : String :=
  match r.selection.map Selection.outcome with
  | none => "fixed"
  | some .complete => "complete"
  | some .exhausted => "exhausted"
  | some (.stalled round) => "stall@" ++ nat round

/-- The row of a cluster. -/
def ClusterReport.summaryLine (r : ClusterReport) : String :=
  let cell (width : Nat) (x : Float) : String := padLeft width (Decimal.fixed 4 x)
  join " | "
    [padLeft 7 (nat r.cluster), padLeft 7 (nat r.rows), padLeft 5 (nat r.features.length),
     padRight 9 r.searchLabel, cell 6 r.test.macroPrecision, cell 6 r.test.macroRecall,
     cell 6 r.test.accuracy, cell 7 r.train.macroPrecision, cell 7 r.train.macroRecall,
     cell 7 r.train.accuracy]

/-- One row for each cluster, and what holds of all of them. -/
def Report.summary (r : Report) : String :=
  let (mean, deviation) := meanDeviation (r.clusters.map fun c => c.test.accuracy)
  let spread := if 1 < r.clusters.length then
      ["Test accuracy across clusters: " ++ Decimal.fixed 4 mean ++ " +/- " ++
        Decimal.fixed 4 deviation]
    else []
  let issues := if 0 < r.issues then
      ["Value check: " ++ nat r.issues ++ " problematic value(s) in the input"]
    else []
  endLines
    (["", "======== TRAINING SUMMARY (" ++ nat r.clusters.length ++ " clusters) ========",
      "Cluster | Samples | Feats | Search    | Test P | Test R | Test A | Train P | Train R | Train A",
      "--------|---------|-------|-----------|--------|--------|--------|---------|---------|--------"]
      ++ r.clusters.map ClusterReport.summaryLine ++ spread ++ issues ++
      ["=================================================="])

end ClauseTriage
