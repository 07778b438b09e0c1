import ClauseTriage.Decimal.Fixed
import ClauseTriage.Selection.Ranking
import ClauseTriage.Text.Column

/-!
# Ranking tables
-/
namespace ClauseTriage

open Text

/-- The line of an entry at a position. -/
def rankingLine (position : Nat) (entry : String × Importance) : String :=
  padRight 3 (nat position) ++ "  " ++ padRight 55 entry.1 ++ " -- " ++
    padLeft 8 (Decimal.fixed 4 entry.2.value) ++ "\n"

/-- The entries, numbered from one. -/
def Ranking.table (r : Ranking) : String :=
  "Feature ranking:\n" ++ String.join (r.zipIdx.map fun (e, i) => rankingLine (i + 1) e)

end ClauseTriage
