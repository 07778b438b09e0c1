/-!
# The host program

What generated code knows of the program it is compiled into: its names for the clause, for the
clause's statistics, and for the record of problem-shape features.
-/
namespace ClauseTriage

/-- A statistic that the host passes as an argument. -/
structure HostParam where
  /-- Name of the statistic, without a generation. -/
  stat : String
  /-- Name of the argument. -/
  ident : String
  deriving DecidableEq, Repr

/-- An argument named after the newest generation of its statistic. -/
def HostParam.ofStat (stat : String) : HostParam := ⟨stat, "rdb0_" ++ stat⟩

/-- The shape of the code that the host program expects. -/
structure Host where
  scope : String := "CMSat"
  clauseType : String := "CMSat::Clause"
  clauseVar : String := "cl"
  sizeAccessor : String := "size()"
  statsMember : String := "stats"
  paramType : String := "uint32_t"
  params : List HostParam :=
    [.ofStat "last_touched_diff", .ofStat "act_ranking", .ofStat "act_ranking_top_10"]
  includes : List String := ["clause.h", "reducedb.h"]
  shapeRecord : String := "SatZillaFeatures"
  shapeInclude : String := "satzilla_features.h"
  deriving DecidableEq, Repr

end ClauseTriage
