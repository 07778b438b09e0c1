import ClauseTriage.Code.Estimator
import ClauseTriage.Code.Header
import ClauseTriage.Model.Basic

/-!
# Predictors

A model becomes one function for each member and one that counts their keep votes.
-/
namespace ClauseTriage.Code

open Accessor

/-- A keep/discard function with its members. -/
structure Predictor where
  function : String
  members : List Statement
  deriving DecidableEq, Repr

namespace Predictor

/-- The members of a model, in order; the first feature without a name is reported. -/
def ofModel? (m : Model) (names : List String) (function : String) (host : Host) :
    Except CodeError Predictor :=
  (m.trees.mapM fun t => statement? t names (.ofHost host)).map fun members =>
    ⟨function, members⟩

/-- A member as a function, with a blank line after it. -/
def memberLines (host : Host) (function : String) (index : Nat) (s : Statement) : List Line :=
  estimatorLines 0 (BaseName.estimator function index) host s ++ [.blank]

/-- One vote of the tally. -/
def voteLines (host : Host) (function : String) (index : Nat) : List Line :=
  ⟨1, "votes += " ++ BaseName.estimator function index ++ "("⟩ ::
    (callArguments 2 host ++ [⟨1, ") < 1.0;"⟩])

/-- The tally: one vote for each member, compared with the threshold. -/
def tallyLines (host : Host) (p : Predictor) : List Line :=
  Code.function 0 "bool" p.function host
    (⟨1, "int votes = 0;"⟩ ::
      ((List.range p.members.length).flatMap (voteLines host p.function) ++
        [⟨1, "return votes >= " ++ Text.nat (keepThreshold p.members.length) ++ ";"⟩]))

/-- Members and tally. -/
def lines (host : Host) (p : Predictor) : List Line :=
  p.members.zipIdx.flatMap (fun (s, index) => memberLines host p.function index s) ++
    p.tallyLines host

def header (host : Host) (p : Predictor) : Header :=
  { guard := BaseName.predictorGuard p.function
    includes := host.includes
    scope := host.scope
    body := p.lines host }

def artifact (host : Host) (file : String) (p : Predictor) : Artifact :=
  ⟨file, [p.function], (p.header host).text⟩

end Predictor

/-- The functions of a model, without a frame. -/
def renderModel? (m : Model) (names : List String) (function : String) (host : Host) :
    Except CodeError String :=
  (Predictor.ofModel? m names function host).map fun p => render (p.lines host)

/-- A model as the header `<base>.h`. -/
def compileModel? (m : Model) (names : List String) (base : String) (host : Host) :
    Except CodeError Artifact := do
  CodeError.checkBase base
  return (← Predictor.ofModel? m names base host).artifact host (base ++ ".h")

/-- The model of one cluster as a header. -/
def compilePredictor? (m : Model) (names : List String) (base : String) (cluster : Nat)
    (host : Host) : Except CodeError Artifact := do
  CodeError.checkBase base
  let p ← Predictor.ofModel? m names (BaseName.predictor base cluster) host
  return p.artifact host (BaseName.predictorFile base cluster)

end ClauseTriage.Code
