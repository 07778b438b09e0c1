import ClauseTriage.Accessor.Resolver

/-!
# Which columns become inputs

Columns are sorted by texts that stand in their names: some describe the label or the bookkeeping,
some an older generation of the clause, some the whole problem.
-/
namespace ClauseTriage

open Text

/-- One of the markers stands in the name. -/
def marked (markers : List String) (name : String) : Bool :=
  markers.any fun m => occursIn m.toList name.toList

theorem marked_iff {markers : List String} {name : String} :
    marked markers name = true ↔ ∃ m ∈ markers, m.toList <:+: name.toList := by
  simp [marked, occursIn_iff]

/-- Label and bookkeeping columns. -/
def bookkeepingMarkers : List String :=
  ["x.num_used", "x.class", "x.lifetime", "fname", "dump_no"]

/-- Statistics of the second generation. -/
def rdb1Markers : List String := ["rdb1", "rdb.rel"]

/-- Older generations, which the clause columns replace. -/
def supersededMarkers : List String := ["cl2", "cl3", "cl4"]

/-- Problem-shape columns that are not used for routing. -/
def unroutedShapes : List String := ["szfeat_cur.conflicts", "szfeat_cur.var_cl_ratio"]

/-- Decides which columns may become inputs of a model. -/
structure FeatureFilter where
  dropRdb1 : Bool := false
  deriving DecidableEq, Repr

namespace FeatureFilter

def drops (f : FeatureFilter) (name : String) : Bool := f.dropRdb1 && marked rdb1Markers name

def isCandidate (f : FeatureFilter) (name : String) : Bool :=
  !(marked bookkeepingMarkers name || marked supersededMarkers name ||
    marked [Accessor.shapeMarker] name || f.drops name)

def candidates (f : FeatureFilter) (names : List String) : List String :=
  names.filter f.isCandidate

@[simp] theorem mem_candidates {f : FeatureFilter} {names : List String} {name : String} :
    name ∈ f.candidates names ↔ name ∈ names ∧ f.isCandidate name = true := by
  simp [candidates]

/-- Columns used for routing, in the order of the dataset. -/
def shapes (names : List String) : List String :=
  names.filter fun n => marked [Accessor.shapeMarker] n && !unroutedShapes.contains n

/-- A given list of features, less those that are dropped. -/
def fixed (f : FeatureFilter) (features : List String) : List String :=
  features.filter fun n => !f.drops n

@[simp] theorem mem_fixed {f : FeatureFilter} {features : List String} {name : String} :
    name ∈ f.fixed features ↔ name ∈ features ∧ f.drops name = false := by
  simp [fixed]

end FeatureFilter

end ClauseTriage
