import ClauseTriage.Decimal.Fixed
import ClauseTriage.Score.Confusion
import ClauseTriage.Text.Column

/-!
# Tables of confusion matrices
-/
namespace ClauseTriage

open Text

/-- Three cells of a table, at the right of their columns. -/
def confusionLine (head first second : String) : String :=
  padLeft 10 head ++ " | " ++ padLeft 8 first ++ " | " ++ padLeft 8 second ++ "\n"

/-- The counts, and below them the shares of each class. -/
def Confusion.table (m : Confusion) (title : String) : String :=
  let counts (head : String) (w : Weights Nat) : String :=
    confusionLine head (nat w.discard) (nat w.keep)
  let shares (head : String) (w : Weights Nat) : String :=
    let s := shareRow w
    confusionLine head (Decimal.fixed 2 s.discard) (Decimal.fixed 2 s.keep)
  "Confusion matrix, without normalization -- " ++ title ++ "\n" ++
    confusionLine "" "discard" "keep" ++ counts "discard" m.ofDiscard ++ counts "keep" m.ofKeep ++
    "Normalized confusion matrix -- " ++ title ++ "\n" ++ shares "discard" m.ofDiscard ++
    shares "keep" m.ofKeep

end ClauseTriage
