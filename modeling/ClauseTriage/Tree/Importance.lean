import ClauseTriage.Tree.Basic

/-!
# Feature importances

A split lowers impurity by the weighted impurity of its node less that of its children. The
importance of a feature is its share of what all splits of the tree lower.
-/
namespace ClauseTriage

variable {α : Type} [Scalar α]

open Scalar

/-- Impurity of a node times its total weight; a position outside the arena has none. -/
def Arena.weightedImpurity (t : Arena α) (id : Nat) : α :=
  match t[id]? with
  | some e => e.weights.total * e.weights.impurity
  | none => zero

/-- How much the split at a node lowers impurity. -/
def Arena.decrease (t : Arena α) (id : Nat) (e : Entry α) : α :=
  t.weightedImpurity id - t.weightedImpurity e.left.toNat - t.weightedImpurity e.right.toNat

/-- Decreases credited to the tested features, in the order of the nodes; what is not positive
counts as zero. -/
def Arena.credits (t : Arena α) (width : Nat) : List α :=
  t.toList.zipIdx.foldl
    (fun credits (e, id) =>
      if e.isLeaf then credits
      else credits.modify e.feature.toNat (· + clampBelow (t.decrease id e)))
    (List.replicate width zero)

/-- Shares of the total; without a positive total everything stays as it is. -/
def shares (xs : List α) : List α :=
  let total := sum xs
  if lt zero total then xs.map (· / total) else xs

/-- Importance of the first `width` features. -/
def Tree.importances (t : Tree α) (width : Nat) : List α := shares (t.arena.credits width)

end ClauseTriage
