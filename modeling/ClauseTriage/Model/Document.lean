import ClauseTriage.Json.Parser
import ClauseTriage.Json.Printer
import ClauseTriage.Model.Basic
import ClauseTriage.Model.Centroids

/-!
# Model documents

Fitted models and centroids as JSON: a tree is five parallel lists, an ensemble an object with the
list `estimators`. Weights may stand in a further list of outputs, which then has one item.
-/
namespace ClauseTriage

open Json

/-- Weights of each node, with or without a list of outputs around them. -/
inductive NodeValues where
  | flat (values : List (List Float))
  | perOutput (values : List (List (List Float)))

/-- A tree as parallel lists. -/
structure TreeDocument where
  left : List Int
  right : List Int
  feature : List Int
  threshold : List Float
  value : NodeValues

inductive ModelDocument where
  | tree (t : TreeDocument)
  | ensemble (estimators : List TreeDocument)

namespace NodeValues

/-- The weights without their list of outputs; the first node with more or fewer is reported. -/
def flatten? : NodeValues → Except ModelError (List (List Float))
  | flat values => .ok values
  | perOutput values => values.zipIdx.mapM fun (outputs, node) =>
    match outputs with
    | [value] => .ok value
    | _ => .error (.multipleOutputs node outputs.length)

/-- Lists of numbers are tried first, lists of lists of numbers second. -/
def ofValue? (v : Value) : Option NodeValues :=
  match v.asList? (Value.asList? Value.asFloat?) with
  | some values => some (flat values)
  | none => (v.asList? (Value.asList? (Value.asList? Value.asFloat?))).map perOutput

def toValue : NodeValues → Value
  | flat values => Value.ofList (Value.ofList Value.ofFloat) values
  | perOutput values => Value.ofList (Value.ofList (Value.ofList Value.ofFloat)) values

end NodeValues

namespace TreeDocument

/-- The five lists from their values. -/
def ofParts? (left right feature threshold value : Value) : Option TreeDocument := do
  return {
    left := ← left.asList? Value.asInt?
    right := ← right.asList? Value.asInt?
    feature := ← feature.asList? Value.asInt?
    threshold := ← threshold.asList? Value.asFloat?
    value := ← NodeValues.ofValue? value }

/-- An object with the five fields, or an array of the five lists. -/
def ofValue? : Value → Option TreeDocument
  | .object fields => do
    ofParts? (← Value.field? "children_left" fields) (← Value.field? "children_right" fields)
      (← Value.field? "feature" fields) (← Value.field? "threshold" fields)
      (← Value.field? "value" fields)
  | .array [left, right, feature, threshold, value] => ofParts? left right feature threshold value
  | _ => none

def toTree? (t : TreeDocument) : Except ModelError (Tree Float) := do
  let values ← t.value.flatten?
  match Tree.ofLists? t.left t.right t.feature t.threshold values with
  | .ok tree => .ok tree
  | .error e => .error (.tree e)

def ofTree (t : Tree Float) : TreeDocument :=
  let entries := t.arena.toList
  { left := entries.map (·.left)
    right := entries.map (·.right)
    feature := entries.map (·.feature)
    threshold := entries.map (·.threshold)
    value := .flat (entries.map (·.weights.toList)) }

def toValue (t : TreeDocument) : Value :=
  .object
    [(some "children_left", Value.ofList Value.ofInt t.left),
     (some "children_right", Value.ofList Value.ofInt t.right),
     (some "feature", Value.ofList Value.ofInt t.feature),
     (some "threshold", Value.ofList Value.ofFloat t.threshold),
     (some "value", t.value.toValue)]

end TreeDocument

namespace ModelDocument

/-- An ensemble is tried first, a tree second. -/
def ofValue? (v : Value) : Option ModelDocument :=
  let ensemble? : Option ModelDocument := match v with
    | .object fields => do
      let estimators ← Value.field? "estimators" fields
      return .ensemble (← estimators.asList? TreeDocument.ofValue?)
    | _ => none
  match ensemble? with
  | some document => some document
  | none => (TreeDocument.ofValue? v).map .tree

/-- Documents nested deeper than this are refused. -/
def depthLimit : Nat := 127

/-- The document of a text. The whole text is read before its form is decided, so every part of it
has to have a value. -/
def parse? (s : String) : Option ModelDocument :=
  match Json.parse? s with
  | none => none
  | some v => if v.isSound && v.depth ≤ depthLimit then ofValue? v else none

def toModel? : ModelDocument → Except ModelError Model
  | tree t => t.toTree?.map .single
  | ensemble estimators => do
    let members ← estimators.mapM TreeDocument.toTree?
    return .ensemble (← Ensemble.ofList? members)

def ofModel : Model → ModelDocument
  | .single t => tree (.ofTree t)
  | .ensemble e => ensemble (e.members.map .ofTree)

def toValue : ModelDocument → Value
  | tree t => t.toValue
  | ensemble estimators =>
    .object [(some "estimators", Value.ofList TreeDocument.toValue estimators)]

end ModelDocument

/-- The model of a document's text; the path stands in the error. -/
def Model.ofText? (path text : String) : Except ModelError Model :=
  match ModelDocument.parse? text with
  | none => .error (.badDocument path)
  | some d => d.toModel?

/-- The text of a model's document. -/
def Model.document (m : Model) : String := (ModelDocument.ofModel m).toValue.pretty 0

/-- Centroids with the names of their coordinates. -/
structure NamedCentroids where
  centroids : Centroids Float
  names : List String

namespace NamedCentroids

/-- The two lists of a document: an object with both fields, or an array of the two. Other fields
are passed over, whatever they hold. -/
def parts? : Value → Option (List (List Float) × List String)
  | .object fields =>
    if fields.all fun f => f.1.isSome then do
      let centers ← Value.field? "centers" fields
      let names ← Value.field? "feature_names" fields
      return (← centers.asList? (Value.asList? Value.asFloat?), ← names.asList? Value.asText?)
    else none
  | .array [centers, names] => do
    return (← centers.asList? (Value.asList? Value.asFloat?), ← names.asList? Value.asText?)
  | _ => none

/-- The centroids of a document's text: one name for each coordinate. -/
def ofText? (path text : String) : Except ModelError NamedCentroids :=
  match (Json.parse? text).bind parts? with
  | none => .error (.badDocument path)
  | some (centers, names) => do
    let c ← Centroids.ofList? centers
    if c.dimension ≠ names.length then throw (.centroidDimension 0 names.length c.dimension)
    return ⟨c, names⟩

end NamedCentroids

end ClauseTriage
