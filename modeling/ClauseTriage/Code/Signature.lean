import ClauseTriage.Code.Line
import ClauseTriage.Host

/-!
# Signatures

Functions that the host calls take the clause and the host's arguments, one on each line.
-/
namespace ClauseTriage.Code

/-- The lines from the result type to the opening brace. -/
def signature (depth : Nat) (result name : String) (host : Host) : List Line :=
  ⟨depth, "static " ++ result ++ " " ++ name ++ "("⟩ ::
    ⟨depth + 1, "const " ++ host.clauseType ++ "* " ++ host.clauseVar⟩ ::
      (host.params.map fun p => ⟨depth + 1, ", const " ++ host.paramType ++ " " ++ p.ident⟩) ++
    [⟨depth, ") \x7b"⟩]

/-- The arguments of a caller, handed on. -/
def callArguments (depth : Nat) (host : Host) : List Line :=
  ⟨depth, host.clauseVar⟩ :: host.params.map fun p => ⟨depth, ", " ++ p.ident⟩

/-- The types of the arguments. -/
def signatureTypes (host : Host) : String :=
  host.params.foldl (fun types _ => types ++ ", const " ++ host.paramType)
    ("const " ++ host.clauseType ++ "*")

/-- A whole function. -/
def function (depth : Nat) (result name : String) (host : Host) (body : List Line) : List Line :=
  signature depth result name host ++ body ++ [⟨depth, "\x7d"⟩]

end ClauseTriage.Code
