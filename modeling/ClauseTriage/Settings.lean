import ClauseTriage.BaseName
import ClauseTriage.Decimal.Style
import ClauseTriage.Family
import ClauseTriage.Host

/-!
# Settings of a run

What a run is asked to do, and which requests can never be met.
-/
namespace ClauseTriage

/-- Why a request is refused. -/
inductive SettingsError where
  | zeroClusters
  | clusterCountMismatch (clusters centroids : Nat)
  | conflictingFamilies (families : List Family)
  | familyNotCompilable (family : Family)
  | zeroTargetFeatures
  | zeroPoolSize
  | fractionOutOfRange (name : String) (value : Float)
  | emptyFixedFeatures
  | invalidBaseName (base : String)
  | missingDataset

def SettingsError.message : SettingsError → String
  | zeroClusters => "cluster count must be at least 1"
  | clusterCountMismatch clusters centroids =>
    "centroid count " ++ Text.nat centroids ++ " does not match the configured cluster count " ++
      Text.nat clusters
  | conflictingFamilies families =>
    "more than one final model family was selected: " ++
      Text.join ", " (families.map Family.name)
  | familyNotCompilable family =>
    "model family '" ++ family.name ++
      "' cannot be compiled to source; use --tree or --forest with --code"
  | zeroTargetFeatures => "greedy target feature count must be at least 1"
  | zeroPoolSize => "candidate pool size (--top) must be at least 1"
  | fractionOutOfRange name value =>
    "fraction '" ++ name ++ "' must be in (0, 1], got " ++ Decimal.plain value
  | emptyFixedFeatures => "a fixed final feature list was requested but it is empty"
  | invalidBaseName base => "output base name '" ++ base ++ "' is not a valid C identifier fragment"
  | missingDataset => "no dataset file was given"

/-- At most one family flag may be set; without any the models vote. -/
def Family.ofFlags (tree forest svm logistic : Bool) : Except SettingsError Family :=
  match selected tree forest svm logistic with
  | [] => .ok .vote
  | [family] => .ok family
  | families => .error (.conflictingFamilies families)

/-- Where headers go, and under which name. -/
structure HeaderTarget where
  base : String
  directory : String
  deriving DecidableEq, Repr

structure Settings where
  clusters : Nat := 7
  /-- Number of features the search tries to end up with. -/
  target : Nat := 40
  /-- Number of features the ranking hands to the search. -/
  poolSize : Nat := 40
  treeDepth : Option Nat := none
  /-- Least size of a node that is split; in forests, least size of a leaf. -/
  minSplit : Nat := 80
  sampleFraction : Float := 0.999
  testFraction : Float := 0.33
  seed : UInt64 := 42
  family : Family := .vote
  /-- Features to use without a search. -/
  fixedFeatures : Option (List String) := none
  dropRdb1 : Bool := false
  checkValues : Bool := false
  confusion : Bool := false
  headers : Option HeaderTarget := none
  dotPath : Option String := none
  tracePath : Option String := none
  labelColumn : String := "x.class"
  restartColumn : String := "cl.cur_restart_type"
  host : Host := {}

/-- A base name that can stand inside identifiers. -/
def BaseName.check (base : String) : Except SettingsError Unit :=
  if isValid base then .ok () else .error (.invalidBaseName base)

/-- In the interval `(0, 1]`. -/
def isFraction (x : Float) : Bool := 0.0 < x && x ≤ 1.0

/-- Refuses requests that can never produce a run; the first reason found is reported. -/
def Settings.check (s : Settings) : Except SettingsError Unit := do
  if s.clusters = 0 then throw .zeroClusters
  if s.target = 0 then throw .zeroTargetFeatures
  if s.poolSize = 0 then throw .zeroPoolSize
  if !isFraction s.sampleFraction then throw (.fractionOutOfRange "only" s.sampleFraction)
  if !isFraction s.testFraction then throw (.fractionOutOfRange "test" s.testFraction)
  if s.fixedFeatures = some [] then throw .emptyFixedFeatures
  match s.headers with
  | none => pure ()
  | some target =>
    BaseName.check target.base
    if !s.family.isCompilable then throw (.familyNotCompilable s.family)

/-- The features used without a search when no list is given. -/
def builtinFeatures : List String :=
  ["rdb0.used_for_uip_creation", "rdb1.used_for_uip_creation", "cl.size", "cl.size_rel",
   "cl.glue_rel_long", "cl.glue_rel_queue", "cl.glue", "rdb0.act_ranking_top_10",
   "rdb0.act_ranking", "rdb0.last_touched_diff", "cl.num_overlap_literals"]

end ClauseTriage
