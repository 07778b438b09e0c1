import ClauseTriage.Accessor.Rule
import ClauseTriage.Host

/-!
# From column names to accessors

A column name goes through a table of rules and is then bound: to the clause's size, to an argument
of the generated function, or to a member of a record.
-/
namespace ClauseTriage.Accessor

open Text

/-- What a renamed column is read through. -/
inductive Binding where
  /-- The clause and the arguments of a generated function. -/
  | clause (host : Host)
  /-- The name itself is a member path. -/
  | member
  deriving DecidableEq, Repr

/-- A table of rules with the binding that follows it. -/
structure Resolver where
  rules : List Rule
  binding : Binding
  deriving DecidableEq, Repr

/-- Columns that describe the whole problem hold this text. -/
def shapeMarker : String := "szfeat_cur"

/-- Accessors of clause features. The last rule sees names without a generation. -/
def Resolver.ofHost (host : Host) : Resolver :=
  { rules :=
      [.dropFront "cl.", .replaceAll "." "_", .dropGeneration "rdb",
       .rename "dump_no" "dump_number"]
    binding := .clause host }

/-- Members of the record of problem-shape features. -/
def Resolver.shape : Resolver :=
  { rules :=
      [.dropFront (shapeMarker ++ "."), .swapFront "red_" "red_cl_distrib.",
       .swapFront "irred_" "irred_cl_distrib."]
    binding := .member }

/-- Through the clause pointer, or one of the arguments. -/
def isAccessor (host : Host) (name : String) : Bool :=
  startsWith (host.clauseVar ++ "->").toList name.toList ||
    host.params.any fun p => p.ident = name

/-- Size, argument or statistic of the clause. -/
def bindClause (host : Host) (name : String) : String :=
  if name = "size" then host.clauseVar ++ "->" ++ host.sizeAccessor
  else match host.params.find? fun p => p.stat = name with
    | some p => p.ident
    | none => host.clauseVar ++ "->" ++ host.statsMember ++ "." ++ name

/-- The expression of a column name; an accessor of the clause stands for itself. -/
def Resolver.resolve (r : Resolver) (raw : String) : String :=
  match r.binding with
  | .clause host =>
    if isAccessor host raw then raw else bindClause host (applyAll r.rules raw)
  | .member => applyAll r.rules raw

def Resolver.resolveAll (r : Resolver) (raw : List String) : List String := raw.map r.resolve

end ClauseTriage.Accessor
