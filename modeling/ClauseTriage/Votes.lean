/-!
# Votes

How member votes become a class, and how many keep votes a compiled tally asks for.
-/
namespace ClauseTriage

/-- One step of the scan: a later class wins only with strictly more votes. -/
def strongerClass (best : Nat × Nat) (entry : Nat × Nat) : Nat × Nat :=
  if best.2 < entry.1 then (entry.2, entry.1) else best

/-- The class with the most votes, the lowest of several; 0 when nobody or nothing is voted for. -/
def majorityClass (votes : List Nat) : Nat := (votes.zipIdx.foldl strongerClass (0, 0)).1

/-- Half the members, rounded up. -/
def keepThreshold (members : Nat) : Nat := (members + 1) / 2

end ClauseTriage
