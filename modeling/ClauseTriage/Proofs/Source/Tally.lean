import ClauseTriage.Proofs.Source.Functions

/-!
# Reading and running a tally

The body of a tally is a list of calls with the number of votes it asks for. A call hands the caller's
parameters on, so its callee sees the same accessors; it adds a vote when the callee returns less than
one.
-/
namespace ClauseTriage.Source

open Code Decimal Text

/-- A call with one argument on each line. -/
structure Call where
  name : String
  arguments : List Raw
  deriving DecidableEq

/-- The calls that may add a vote, in order, and the number of votes that suffices. -/
structure Tally where
  calls : List Call
  threshold : Nat
  deriving DecidableEq

/-- The lines after the declaration of the count. An open call takes arguments until it is closed. -/
def readVotes? : Option Call → List Raw → Option Tally
  | _, [] => none
  | some call, line :: rest =>
    if line = indent 1 ++ ") < 1.0;".toList then
      (readVotes? none rest).map fun t => ⟨call :: t.calls, t.threshold⟩
    else do
      let argument ← stripFront? (indent 2) line
      readVotes? (some ⟨call.name, call.arguments ++ [argument]⟩) rest
  | none, line :: rest => do
    let text ← stripFront? (indent 1) line
    match between? "votes += ".toList "(".toList text with
    | some name => readVotes? (some ⟨String.ofList name, []⟩) rest
    | none =>
      let threshold ← natOf? (← between? "return votes >= ".toList ";".toList text)
      if rest = [] then return ⟨[], threshold⟩ else none

/-- The body of a tally. -/
def readTally? (body : List Raw) : Option Tally :=
  (dropLine? (indent 1 ++ "int votes = 0;".toList) body).bind (readVotes? none)

/-- A declared name ends its parameter. -/
def declares (parameter argument : Raw) : Bool :=
  (stripBack? (' ' :: argument) parameter).isSome

/-- The arguments are the names of the parameters, in order; all but the first follow a comma. -/
def handsOn : List Raw → List Raw → Bool
  | first :: parameters, argument :: arguments =>
    declares first argument && parameters.length == arguments.length &&
      (parameters.zip arguments).all fun (p, a) =>
        match stripFront? ", ".toList p, stripFront? ", ".toList a with
        | some p, some a => declares p a
        | _, _ => false
  | _, _ => false

/-- What a call returns to its caller. -/
def Call.value? (env : String → Float) (functions : List Function) (caller : Function)
    (call : Call) : Option Float := do
  let callee ← functions.find? fun f => f.name = call.name
  if callee.result = "double" ∧ callee.parameters = caller.parameters ∧
      handsOn caller.parameters call.arguments then
    valueOf? env (← readBody? 1 callee.body)
  else none

/-- What the tally of a name returns, with a value for each accessor. -/
def decision? (env : String → Float) (functions : List Function) (name : String) :
    Option Bool := do
  let caller ← functions.find? fun f => f.name = name
  if caller.result = "bool" then
    let tally ← readTally? caller.body
    let ratios ← tally.calls.mapM (Call.value? env functions caller)
    return tally.threshold ≤ ratios.countP (· < 1.0)
  else none

section Reading

/-- The arguments of a call inside a function of the host. -/
def argumentsOf (host : Host) : List String :=
  host.clauseVar :: host.params.map fun p => ", " ++ p.ident

theorem declares_append (front name : List Char) : declares (front ++ ' ' :: name) name = true := by
  rw [declares, stripBack?_append]
  rfl

/-- The arguments that generated calls are given are the parameters of generated functions. -/
theorem handsOn_argumentsOf (host : Host) :
    handsOn ((parametersOf host).map String.toList) ((argumentsOf host).map String.toList) =
      true := by
  have hfirst : declares ("const " ++ host.clauseType ++ "* " ++ host.clauseVar).toList
      host.clauseVar.toList = true := by
    have := declares_append ("const " ++ host.clauseType ++ "*").toList host.clauseVar.toList
    simpa using this
  have hnext (p : HostParam) :
      declares ("const ".toList ++ (host.paramType.toList ++ (" ".toList ++ p.ident.toList)))
        p.ident.toList = true := by
    have := declares_append ("const ".toList ++ host.paramType.toList) p.ident.toList
    simpa using this
  rw [parametersOf, argumentsOf, List.map_cons, List.map_cons, handsOn, hfirst]
  simp only [List.map_map, List.length_map, beq_self_eq_true, Bool.true_and, List.zip_map',
    List.all_map, List.all_eq_true, Function.comp_def]
  intro p _
  simp only [String.toList_append, show ", const ".toList = ", ".toList ++ "const ".toList from rfl,
    List.append_assoc, stripFront?_append]
  exact hnext p

/-- An open call takes its arguments and is closed. -/
theorem readVotes?_arguments (call : Call) (arguments : List String) (rest : List Raw) :
    readVotes? (some call) (arguments.map (fun a => raw ⟨2, a⟩) ++ raw ⟨1, ") < 1.0;"⟩ :: rest) =
      (readVotes? none rest).map fun t =>
        ⟨⟨call.name, call.arguments ++ arguments.map String.toList⟩ :: t.calls, t.threshold⟩ := by
  induction arguments generalizing call with
  | nil =>
    have hclose : raw ⟨1, ") < 1.0;"⟩ = indent 1 ++ ") < 1.0;".toList := rfl
    rw [List.map_nil, List.nil_append, readVotes?, if_pos hclose, List.map_nil, List.append_nil]
  | cons argument arguments ih =>
    have hopen : raw ⟨2, argument⟩ ≠ indent 1 ++ ") < 1.0;".toList := by
      intro h
      have := congrArg (fun cs => cs[4]?) h
      simp [raw, indent] at this
    rw [List.map_cons, List.cons_append, readVotes?, if_neg hopen, raw, stripFront?_append,
      Option.bind_eq_bind, Option.bind_some, ih]
    simp

/-- The call of one vote. -/
def voteOf (host : Host) (function : String) (index : Nat) : Call :=
  ⟨BaseName.estimator function index, (argumentsOf host).map String.toList⟩

/-- One vote is read as its call. -/
theorem readVotes?_voteLines (host : Host) (function : String) (index : Nat) (rest : List Raw) :
    readVotes? none ((Predictor.voteLines host function index).map raw ++ rest) =
      (readVotes? none rest).map fun t => ⟨voteOf host function index :: t.calls, t.threshold⟩ := by
  have hlines : (Predictor.voteLines host function index).map raw ++ rest =
      (indent 1 ++ ("votes += ".toList ++ ((BaseName.estimator function index).toList ++
        "(".toList))) ::
        ((argumentsOf host).map (fun a => raw ⟨2, a⟩) ++ raw ⟨1, ") < 1.0;"⟩ :: rest) := by
    simp [Predictor.voteLines, callArguments, argumentsOf, raw, Function.comp_def]
  rw [hlines, readVotes?, stripFront?_append, Option.bind_eq_bind, Option.bind_some,
    between?_append]
  dsimp only
  rw [readVotes?_arguments, String.ofList_toList, List.nil_append]
  rfl

/-- All votes are read in order. -/
theorem readVotes?_run (host : Host) (function : String) (indices : List Nat) (rest : List Raw) :
    readVotes? none ((indices.flatMap (Predictor.voteLines host function)).map raw ++ rest) =
      (readVotes? none rest).map fun t =>
        ⟨indices.map (voteOf host function) ++ t.calls, t.threshold⟩ := by
  induction indices with
  | nil => cases h : readVotes? none rest <;> simp [h]
  | cons index indices ih =>
    rw [List.flatMap_cons, List.map_append, List.append_assoc, readVotes?_voteLines, ih,
      Option.map_map]
    rfl

theorem readVotes?_return (threshold : Nat) :
    readVotes? none [raw ⟨1, "return votes >= " ++ Text.nat threshold ++ ";"⟩] =
      some ⟨[], threshold⟩ := by
  have hline : raw ⟨1, "return votes >= " ++ Text.nat threshold ++ ";"⟩ =
      indent 1 ++ ("return votes >= ".toList ++ ((Text.nat threshold).toList ++ ";".toList)) := by
    simp [raw]
  have hvotes : between? "votes += ".toList "(".toList ("return votes >= ".toList ++
      ((Text.nat threshold).toList ++ ";".toList)) = none := between?_cons_ne (by decide) _ _ _
  rw [hline, readVotes?, stripFront?_append]
  simp only [Option.bind_eq_bind, Option.bind_some, hvotes, between?_append, natOf?_nat]
  rfl

/-- The body of a tally without its indentation and braces. -/
def tallyBody (host : Host) (p : Predictor) : List Line :=
  ⟨1, "int votes = 0;"⟩ ::
    ((List.range p.members.length).flatMap (Predictor.voteLines host p.function) ++
      [⟨1, "return votes >= " ++ Text.nat (keepThreshold p.members.length) ++ ";"⟩])

/-- A tally calls each member once, in order, and asks for the threshold of their number. -/
theorem readTally?_tallyBody (host : Host) (p : Predictor) :
    readTally? ((tallyBody host p).map raw) =
      some ⟨(List.range p.members.length).map (voteOf host p.function),
        keepThreshold p.members.length⟩ := by
  rw [readTally?, tallyBody, List.map_cons, List.map_append,
    show raw ⟨1, "int votes = 0;"⟩ = indent 1 ++ "int votes = 0;".toList from rfl, dropLine?_cons,
    Option.bind_some, readVotes?_run, List.map_singleton, readVotes?_return, Option.map_some,
    List.append_nil]

end Reading

end ClauseTriage.Source
