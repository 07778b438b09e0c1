import ClauseTriage.Settings
import ClauseTriage.System
import ClauseTriage.Text.Quoted

/-!
# Faults of code generation
-/
namespace ClauseTriage

open Text

/-- Why no header is written. -/
inductive CodeError where
  | featureOutOfRange (index available : Nat)
  | shapeDimension (names dimension : Nat)
  | settings (cause : SettingsError)
  | write (path : String) (cause : SystemError)

def CodeError.message : CodeError → String
  | featureOutOfRange index available =>
    "split feature index " ++ nat index ++ " has no name (only " ++ nat available ++
      " feature names given)"
  | shapeDimension names dimension =>
    "shape feature list has " ++ nat names ++ " names but centroids have dimension " ++
      nat dimension
  | settings cause => cause.message
  | write path cause => "failed to write artifact " ++ quote path ++ ": " ++ cause.message

/-- Refuses base names that cannot stand inside identifiers. -/
def CodeError.checkBase (base : String) : Except CodeError Unit :=
  match BaseName.check base with
  | .ok () => .ok ()
  | .error e => .error (.settings e)

end ClauseTriage
