import ClauseTriage.Main
import ClauseTriage.Report.Ranking
import ClauseTriage.Store
import ClauseTriage.Proofs.Tree.Unfolding
import ClauseTriage.Proofs.Cluster.Labels
import ClauseTriage.Proofs.Decimal.RoundTrip
import ClauseTriage.Proofs.Source.Predictor
import ClauseTriage.Proofs.Source.Routing
import ClauseTriage.Proofs.Double.Order
import ClauseTriage.Proofs.Double.Arithmetic
import ClauseTriage.Proofs.Double.Counts
import ClauseTriage.Proofs.Source.Ratio
import ClauseTriage.Proofs.Model.Votes
import ClauseTriage.Proofs.Double.Halves
import ClauseTriage.Proofs.Random.Order
import ClauseTriage.Proofs.Tree.Numbering
import ClauseTriage.Proofs.Fit.Split
import ClauseTriage.Proofs.Fit.Growing
import ClauseTriage.Proofs.Fit.Trees
import ClauseTriage.Proofs.Double.Shares
import ClauseTriage.Proofs.Tree.Path
import ClauseTriage.Proofs.Fit.Counting
import ClauseTriage.Proofs.Table.Rows
import ClauseTriage.Proofs.Run.Rows
import ClauseTriage.Proofs.Selection.Rounds
import ClauseTriage.Proofs.Run.Training
import ClauseTriage.Proofs.Fit.Models
import ClauseTriage.Proofs.Run.Headers
import ClauseTriage.Proofs.Json.Numbers
import ClauseTriage.Proofs.Json.RoundTrip
import ClauseTriage.Proofs.Model.Document
import ClauseTriage.Proofs.Run.Features
import ClauseTriage.Proofs.Run.Dispatch
import ClauseTriage.Proofs.Cli.HeaderCommands
import ClauseTriage.Proofs.Fit.Sides
import ClauseTriage.Proofs.Fit.Reordering
import ClauseTriage.Proofs.Source.Grammar
import ClauseTriage.Proofs.Tree.Descent
import ClauseTriage.Proofs.Double.Nearest
import ClauseTriage.Proofs.Decimal.Fixed
import ClauseTriage.Proofs.Source.Majority
import ClauseTriage.Proofs.Selection.Winners
import ClauseTriage.Proofs.Selection.Targets
import ClauseTriage.Proofs.Selection.Failures
import ClauseTriage.Proofs.Accessor.Generations
import ClauseTriage.Proofs.Accessor.Members
import ClauseTriage.Proofs.Cluster.Nearest
import ClauseTriage.Proofs.Cluster.Cost
import ClauseTriage.Proofs.Cluster.Rounds
import ClauseTriage.Proofs.Selection.Ranking
import ClauseTriage.Proofs.Table.Parts
import ClauseTriage.Proofs.Table.Fields
import ClauseTriage.Proofs.Table.Loading
import ClauseTriage.Proofs.Table.Reordering
import ClauseTriage.Proofs.Double.Vanishing
import ClauseTriage.Proofs.Score.Counts
import ClauseTriage.Proofs.Score.Extremes
import ClauseTriage.Proofs.Score.Positive
import ClauseTriage.Proofs.Run.Stalls
import ClauseTriage.Proofs.Tree.Importance
import ClauseTriage.Proofs.Fit.Importance
import ClauseTriage.Proofs.Source.Names
import ClauseTriage.Proofs.Run.Names
import ClauseTriage.Proofs.Double.Single
import ClauseTriage.Proofs.Source.Bound
import ClauseTriage.Proofs.Tree.Counts
import ClauseTriage.Proofs.Tree.Refusal
import ClauseTriage.Proofs.Tree.Drawing
