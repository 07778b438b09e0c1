import ClauseTriage.Run.Error
import ClauseTriage.Text.Column
import ClauseTriage.Text.Pieces

/-!
# Failures

What is said when a request cannot be carried out: a message, and below it what caused it.
-/
namespace ClauseTriage.Cli

open Text

/-- A message with its causes, the nearest first. -/
structure Failure where
  message : String
  causes : List String := []
  deriving DecidableEq, Repr

namespace Failure

/-- The failure of what a failed step belongs to. -/
def within (message : String) (f : Failure) : Failure := ⟨message, f.message :: f.causes⟩

/-- A cause behind its mark; further lines of it are set in as far as the first. -/
def causeText (mark cause : String) : String :=
  let lines := (splitAtEach '\n' cause.toList).map String.ofList
  mark ++ join ("\n" ++ fill mark.length 0) lines

/-- Several causes are numbered from zero. -/
def text (f : Failure) : String :=
  let causes := match f.causes with
    | [] => []
    | [cause] => [causeText (fill 4 0) cause]
    | causes => causes.zipIdx.map fun (cause, i) => causeText (padLeft 5 (nat i) ++ ": ") cause
  let below := if causes.isEmpty then "" else "\n\nCaused by:\n" ++ join "\n" causes
  "Error: " ++ f.message ++ below

def ofSystem (e : SystemError) : Failure := ⟨e.message, []⟩

def ofSettings (e : SettingsError) : Failure := ⟨e.message, []⟩

def ofModel (e : ModelError) : Failure := ⟨e.message, []⟩

def ofRead (e : ReadError) : Failure := ⟨e.message, []⟩

def ofDataset (e : DatasetError) : Failure :=
  match e with
  | .read _ cause => (ofRead cause).within e.message
  | _ => ⟨e.message, []⟩

def ofFit (e : FitError) : Failure :=
  match e with
  | .invalidModel cause => (ofModel cause).within e.message
  | _ => ⟨e.message, []⟩

def ofCode (e : CodeError) : Failure :=
  match e with
  | .write _ cause => (ofSystem cause).within e.message
  | _ => ⟨e.message, []⟩

def ofSearch (e : SearchError FitError) : Failure :=
  match e with
  | .scoring _ cause => (ofFit cause).within e.message
  | .emptyPool => ⟨e.message, []⟩

def ofRun (e : RunError) : Failure :=
  match e with
  | .settings cause => ofSettings cause
  | .dataset cause => ofDataset cause
  | .fit cause => ofFit cause
  | .code cause => ofCode cause
  | .search cause => ofSearch cause
  | .system cause => (ofSystem cause).within e.message
  | .emptyCluster _ | .notCompilable _ => ⟨e.message, []⟩

end Failure

end ClauseTriage.Cli
