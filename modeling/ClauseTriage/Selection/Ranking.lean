import ClauseTriage.Selection.Importance

/-!
# Rankings

Features by importance, the most important first; features of one importance keep their order.
-/
namespace ClauseTriage

/-- Features with their importances. -/
abbrev Ranking := List (String × Importance)

namespace Ranking

/-- Not after another entry. -/
def notAfter (a b : String × Importance) : Bool := b.2.key ≤ a.2.key

/-- The first `top` features. -/
def ofImportances (names : List String) (importances : List Importance) (top : Nat) : Ranking :=
  ((names.zip importances).mergeSort notAfter).take top

/-- The names in order. -/
def pool (r : Ranking) : List String := r.map (·.1)

end Ranking

end ClauseTriage
