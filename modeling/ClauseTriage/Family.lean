import ClauseTriage.Text.Column

/-!
# Model families
-/
namespace ClauseTriage

/-- Family of the final model of a cluster. -/
inductive Family where
  | tree
  | forest
  | svm
  | logistic
  /-- A vote over a tree, an SVM and a logistic regression. -/
  | vote
  deriving DecidableEq, Repr

namespace Family

def name : Family → String
  | tree => "tree"
  | forest => "forest"
  | svm => "svm"
  | logistic => "logreg"
  | vote => "vote"

/-- Only trees have a form that can be written as source. -/
def isCompilable : Family → Bool
  | tree | forest => true
  | _ => false

/-- The families whose flag is set. -/
def selected (tree forest svm logistic : Bool) : List Family :=
  [(tree, Family.tree), (forest, .forest), (svm, .svm), (logistic, .logistic)].filterMap
    fun (flag, family) => if flag then some family else none

end Family

end ClauseTriage
