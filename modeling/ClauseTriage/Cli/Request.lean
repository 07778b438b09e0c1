import ClauseTriage.Cli.Grammar
import ClauseTriage.Settings

/-!
# Requests

The three commands, their options, and what they ask for.
-/
namespace ClauseTriage.Cli

/-- Trains, reports, and writes what is asked for. -/
structure TrainRequest where
  data : Option String := none
  /-- Options that are settings as they stand. -/
  settings : Settings := {}
  base : Option String := none
  directory : String := "."
  families : List Family := []
  /-- The built-in list of features, unless another one is given. -/
  builtin : Bool := false
  features : Option (List String) := none
  modelDirectory : Option String := none

/-- Writes the header of a model that is fitted already. -/
structure CompileRequest where
  model : String
  features : List String
  base : String
  directory : String

/-- Writes the header of centroids that are fitted already. -/
structure RouterRequest where
  centroids : String
  base : String
  directory : String

inductive Request where
  | train (r : TrainRequest)
  | compile (r : CompileRequest)
  | router (r : RouterRequest)

variable {ρ : Type}

def helpSwitch : Switch ρ := ⟨"help", some 'h', fun _ => .error .help⟩

/-- Asks for messages on progress. Nothing depends on it. -/
def verboseSwitch : Switch ρ := ⟨"verbose", some 'v', .ok⟩

/-- Behind the features that were given before. -/
def extend (before : Option (List String)) (names : List String) : Option (List String) :=
  some (before.getD [] ++ names)

namespace TrainRequest

/-- Adds a family flag. -/
def family (f : Family) (r : TrainRequest) : TrainRequest := { r with families := f :: r.families }

/-- Changes the settings. -/
def set (change : Settings → Settings) (r : TrainRequest) : TrainRequest :=
  { r with settings := change r.settings }

def switches : List (Switch TrainRequest) :=
  [helpSwitch, verboseSwitch,
   .flag "final" fun r => { r with builtin := true },
   .flag "nordb1" (set fun s => { s with dropRdb1 := true }),
   .flag "check" (set fun s => { s with checkValues := true }),
   .flag "conf" (set fun s => { s with confusion := true }),
   .flag "tree" (family .tree), .flag "forest" (family .forest),
   .flag "svm" (family .svm), .flag "lreg" (family .logistic)]

def parameters : List (Parameter TrainRequest) :=
  [.text "code" fun v r => { r with base := some v },
   .path "out" fun v r => { r with directory := v },
   .natural "clusters" fun v => set fun s => { s with clusters := v },
   .natural "greedybest" fun v => set fun s => { s with target := v },
   .natural "top" fun v => set fun s => { s with poolSize := v },
   .natural "depth" fun v => set fun s => { s with treeDepth := some v },
   .natural "split" fun v => set fun s => { s with minSplit := v },
   .decimal "only" fun v => set fun s => { s with sampleFraction := v },
   .list "features" fun v r => { r with features := extend r.features v },
   .path "dot" fun v => set fun s => { s with dotPath := some v },
   .path "trace" fun v => set fun s => { s with tracePath := some v },
   .path "save-models" fun v r => { r with modelDirectory := some v },
   .natural "seed" fun v => set fun s => { s with seed := v.toUInt64 },
   .text "label" fun v => set fun s => { s with labelColumn := v }]

def grammar : Grammar TrainRequest where
  switches := switches
  parameters := parameters
  operands := [fun v r => (path? v).map fun path => { r with data := some path }]

/-- The features to use without a search. -/
def fixedFeatures (r : TrainRequest) : Option (List String) :=
  match r.features with
  | some names => some names
  | none => if r.builtin then some builtinFeatures else none

/-- The settings of the run, checked. -/
def settings? (r : TrainRequest) : Except SettingsError Settings := do
  let given (f : Family) : Bool := r.families.contains f
  let family ← Family.ofFlags (given .tree) (given .forest) (given .svm) (given .logistic)
  let s := { r.settings with
    family := family
    fixedFeatures := r.fixedFeatures
    headers := r.base.map fun base => ⟨base, r.directory⟩ }
  s.check
  return s

end TrainRequest

/-- Options of the commands that only write headers. -/
structure HeaderOptions where
  input : Option String := none
  features : Option (List String) := none
  base : Option String := none
  directory : String := "."

namespace HeaderOptions

/-- The grammar of a command whose input has a name of its own. -/
def grammar (input : String) (others : List (Parameter HeaderOptions)) : Grammar HeaderOptions where
  switches := [helpSwitch, verboseSwitch]
  parameters :=
    [.path input fun v r => { r with input := some v },
     .text "code" fun v r => { r with base := some v },
     .path "out" fun v r => { r with directory := v }] ++ others

def featureList : Parameter HeaderOptions :=
  .list "features" fun v r => { r with features := extend r.features v }

/-- Input, base name and features are required. -/
def compile? (o : HeaderOptions) : Option CompileRequest := do
  return ⟨← o.input, ← o.features, ← o.base, o.directory⟩

/-- Input and base name are required. -/
def router? (o : HeaderOptions) : Option RouterRequest := do
  return ⟨← o.input, ← o.base, o.directory⟩

end HeaderOptions

namespace Request

/-- A request that lacks a required option is a misuse. -/
def required {α : Type} : Option α → Except Stop α
  | some x => .ok x
  | none => .error .misuse

def commands : List String := ["train", "compile", "clusters", "help"]

/-- Help on at most one command. -/
def helpOn : List String → Stop
  | [] => .help
  | [command] => if commands.contains command then .help else .misuse
  | _ => .misuse

/-- The request of a command. -/
def ofCommand (command : String) (words : List String) : Except Stop Request := do
  match command with
  | "train" => return .train (← TrainRequest.grammar.read {} words)
  | "compile" =>
    let o ← (HeaderOptions.grammar "model" [HeaderOptions.featureList]).read {} words
    return .compile (← required o.compile?)
  | "clusters" =>
    let o ← (HeaderOptions.grammar "centers" []).read {} words
    return .router (← required o.router?)
  | "help" => throw (helpOn words)
  | _ => throw .misuse

/-- What may stand before a command. -/
def frontGrammar : Grammar Unit where
  switches := [helpSwitch, verboseSwitch, ⟨"version", some 'V', fun _ => .error .version⟩]

/-- Reads switches, and then a command. -/
def readFront (p : Progress Unit) : List String → Except Stop Request
  | [] => .error .misuse
  | word :: rest =>
    match Word.ofString word with
    | .plain command => ofCommand command rest
    | .separator => .error .misuse
    | _ => do readFront (← frontGrammar.step p word) rest

/-- The request that words make. -/
def ofWords (words : List String) : Except Stop Request := readFront (frontGrammar.start ()) words

end Request

end ClauseTriage.Cli
