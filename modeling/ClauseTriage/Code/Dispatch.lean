import ClauseTriage.Code.Error
import ClauseTriage.Code.Header
import ClauseTriage.Code.Signature

/-!
# Dispatch tables

One header ties a router to the predictors of its clusters: a table of functions by cluster.
-/
namespace ClauseTriage.Code

/-- A table of functions of one type. -/
structure Dispatch where
  typeName : String
  table : String
  functions : List String
  deriving DecidableEq, Repr

def Dispatch.lines (host : Host) (d : Dispatch) : List Line :=
  [.flush ("typedef bool (*" ++ d.typeName ++ ")(" ++ signatureTypes host ++ ");"), .blank,
   .flush (d.typeName ++ " " ++ d.table ++ "[" ++ Text.nat d.functions.length ++ "] = \x7b")] ++
    (d.functions.map fun f => ⟨1, host.scope ++ "::" ++ f ++ ","⟩) ++ [.flush "\x7d;"]

/-- The header that includes a router and its predictors and lists their entry points. -/
def compileDispatch? (base : String) (router : Artifact) (predictors : List Artifact)
    (host : Host) : Except CodeError Artifact := do
  CodeError.checkBase base
  if predictors.isEmpty then throw (.settings .zeroClusters)
  let d : Dispatch :=
    { typeName := BaseName.dispatchType base
      table := BaseName.dispatchTable base
      functions := predictors.flatMap Artifact.entries }
  let header : Header :=
    { remarks := ["///auto-generated code. Under MIT license."]
      guard := BaseName.dispatchGuard base
      includes := host.includes ++ router.file :: predictors.map Artifact.file
      scope := host.scope
      body := d.lines host }
  return ⟨BaseName.dispatchFile base, d.table :: router.entries, header.text⟩

end ClauseTriage.Code
