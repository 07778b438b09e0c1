import ClauseTriage.Decimal.Style
import ClauseTriage.System
import ClauseTriage.Text.Quoted
import ClauseTriage.Tree.Arena

/-!
# Faults of fitted models
-/
namespace ClauseTriage

open Text

/-- Why given arrays, members or centroids are not a model. -/
inductive ModelError where
  | tree (cause : TreeError Float)
  | multipleOutputs (node got : Nat)
  | emptyEnsemble
  | noCentroids
  | centroidDimension (index expected got : Nat)
  | unreadable (path : String) (cause : SystemError)
  | notText (path : String)
  | badDocument (path : String)

def TreeError.message : TreeError Float → String
  | empty => "tree has no nodes"
  | lengths left right feature threshold value =>
    "tree arrays disagree in length: left=" ++ nat left ++ ", right=" ++ nat right ++
      ", feature=" ++ nat feature ++ ", threshold=" ++ nat threshold ++ ", value=" ++ nat value
  | notTwoClasses node got =>
    "node " ++ nat node ++ ": expected a two-class distribution, got " ++ nat got ++ " values"
  | halfLeaf node => "node " ++ nat node ++ " has exactly one child"
  | childOutOfRange node child size =>
    "node " ++ nat node ++ ": child index " ++ int child ++ " is out of range (node count " ++
      nat size ++ ")"
  | negativeFeature node feature =>
    "tree arrays disagree in length: internal node " ++ nat node ++
      " carries leaf feature sentinel " ++ int feature
  | notFinite node threshold =>
    "node " ++ nat node ++ ": threshold " ++ Decimal.plain threshold ++ " is not finite"
  | reachedTwice node =>
    "node " ++ nat node ++ " is reachable more than once or the tree contains a cycle"
  | unreachable node => "node " ++ nat node ++ " is not reachable from the root"

/-- What is said of a model file that gives no model. -/
def unreadModel (path reason : String) : String :=
  "failed to read model file " ++ quote path ++ ": " ++ reason

def ModelError.message : ModelError → String
  | tree cause => cause.message
  | multipleOutputs node got =>
    "node " ++ nat node ++ ": expected a single output, got " ++ nat got
  | emptyEnsemble => "ensemble has no member trees"
  | noCentroids => "cluster model has no centroids"
  | centroidDimension index expected got =>
    "centroid " ++ nat index ++ " has dimension " ++ nat got ++ ", expected " ++ nat expected
  | unreadable path cause => unreadModel path cause.message
  | notText path => unreadModel path "stream did not contain valid UTF-8"
  | badDocument path => unreadModel path "invalid JSON"

end ClauseTriage
