import ClauseTriage.Decimal.Fixed
import ClauseTriage.Run.Cluster
import ClauseTriage.Table.Records

/-!
# Traces of feature searches

Every scored feature of every round as a table file.
-/
namespace ClauseTriage

open Text

/-- A record with its line end. -/
def recordLine (fields : List String) : String := join "," (fields.map Table.writeField) ++ "\n"

/-- The records of a round. -/
def Round.lines (cluster : Nat) (r : Round Float) : List String :=
  r.candidates.map fun (name, score) =>
    recordLine [nat cluster, nat r.number, name, Decimal.fixed 6 score,
      if r.winner = some name then "true" else "false"]

/-- The records of a cluster whose features were searched. -/
def ClusterReport.traceLines (r : ClusterReport) : List String :=
  match r.selection with
  | none => []
  | some s => s.rounds.flatMap (Round.lines r.cluster)

/-- The trace of a run. -/
def traceText (reports : List ClusterReport) : String :=
  recordLine ["cluster", "round", "candidate", "score", "winner"] ++
    String.join (reports.flatMap ClusterReport.traceLines)

end ClauseTriage
