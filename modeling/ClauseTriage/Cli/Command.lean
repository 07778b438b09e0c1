import ClauseTriage.Cli.Failure
import ClauseTriage.Cli.Request
import ClauseTriage.Cli.Usage
import ClauseTriage.Fit.Lloyd
import ClauseTriage.Model.Document
import ClauseTriage.Report.Confusion
import ClauseTriage.Report.Summary
import ClauseTriage.Run.Execution
import ClauseTriage.Table.Load

/-!
# Commands

Requests are carried out on a file system and end with an exit code, an output and diagnostics.
-/
namespace ClauseTriage.Cli

/-- How a request ends without success. -/
inductive Ending where
  | failure (f : Failure)
  /-- Data that no step expects; nothing more is said. -/
  | abort

/-- What the caller sees, files apart. -/
structure Outcome where
  code : UInt32
  output : String := ""
  diagnostics : String := ""

/-- Steps of a request. -/
abbrev Action (m : Type → Type) (α : Type) : Type := ExceptT Ending m α

namespace Action

variable {m : Type → Type} [Monad m] {α ε : Type}

/-- Goes on with a result, or ends with a failure. -/
def ofExcept (failure : ε → Failure) (x : Except ε α) : Action m α :=
  match x with
  | .ok a => pure a
  | .error e => throw (.failure (failure e))

/-- Asks the file system. -/
def ask (failure : SystemError → Failure) (request : m (Except SystemError α)) : Action m α := do
  ofExcept failure (← ExceptT.lift request)

end Action

/-- A failure as part of a larger step. -/
def inStep {ε : Type} (message : String) (failure : ε → Failure) (e : ε) : Failure :=
  (failure e).within message

/-- Entries that the data lacks, and weights without a finite sum. -/
def isAbrupt : RunError → Bool
  | .fit .missingEntry | .fit .unboundedWeights => true
  | .search (.scoring _ .missingEntry) | .search (.scoring _ .unboundedWeights) => true
  | .dataset (.rowOutOfRange _) => true
  | _ => false

section

variable {m : Type → Type} [Monad m] (fs : FileSystem m)

/-- The dataset of a table file. -/
def loadDataset (path : String) (s : Settings) : Action m Dataset := do
  let failure := inStep "Failed to load dataset" Failure.ofDataset
  let bytes ← Action.ask (fun e => failure (.read path (.system e))) (fs.read path)
  Action.ofExcept failure (Dataset.ofBytes? path bytes.toList s.labelColumn s.restartColumn)

/-- A run with the built-in fitters. -/
def runOn (s : Settings) (d : Dataset) : Action m Report := do
  match ← ExceptT.lift (Run.execute fs s (TreeFitter.ofSettings s).fitter
      (Lloyd.fit Lloyd.defaultRounds) d) with
  | .ok plan => return plan.report
  | .error e =>
    throw (if isAbrupt e then .abort
      else .failure (inStep "Training run failed" Failure.ofRun e))

/-- Both tables of a cluster. -/
def confusionTables (c : ClusterReport) : String :=
  match c.testConfusion, c.trainConfusion with
  | some test, some train =>
    let title (part : String) : String := "cluster " ++ Text.nat c.cluster ++ " " ++ part
    test.table (title "test") ++ "\n" ++ train.table (title "train") ++ "\n"
  | _, _ => ""

/-- What a run prints. -/
def reportText (r : Report) : String :=
  r.summary ++ "\n" ++ String.join (r.clusters.map confusionTables)

/-- Writes the document of every model into a directory. -/
def saveModels (directory : String) (reports : List ClusterReport) : Action m Unit := do
  Action.ask (inStep "Failed to create model directory" Failure.ofSystem)
    (fs.makeDirectories directory)
  reports.forM fun c =>
    match c.model with
    | none => pure ()
    | some model =>
      let path := Path.join directory ("model_" ++ Text.nat c.cluster ++ ".json")
      Action.ask (inStep ("Failed to write " ++ path) Failure.ofSystem)
        (fs.write path model.document)

def train (r : TrainRequest) : Action m String := do
  let path ← Action.ofExcept Failure.ofSettings
    (match r.data with
      | some path => .ok path
      | none => .error .missingDataset)
  let s ← Action.ofExcept (inStep "Invalid configuration" Failure.ofSettings) r.settings?
  let data ← loadDataset fs path s
  let report ← runOn fs s data
  match r.modelDirectory with
  | none => pure ()
  | some directory => saveModels fs directory report.clusters
  return reportText report

/-- The text of a document. -/
def loadText (path : String) : m (Except ModelError String) := do
  match ← fs.read path with
  | .error e => return .error (.unreadable path e)
  | .ok bytes =>
    match String.fromUTF8? bytes with
    | some text => return .ok text
    | none => return .error (.notText path)

/-- A document and what it stands for. -/
def load {α : Type} (message path : String) (read? : String → String → Except ModelError α) :
    Action m α := do
  let text ← ExceptT.lift (loadText fs path)
  Action.ofExcept (inStep message Failure.ofModel) (text.bind (read? path))

/-- Writes one header into a directory. -/
def writeHeader (directory : String) (a : Code.Artifact) : Action m Unit := do
  Action.ask (inStep "Failed to create output directory" Failure.ofSystem)
    (fs.makeDirectories directory)
  let path := Path.join directory a.file
  Action.ask (fun e => Failure.ofCode (.write path e)) (fs.write path a.text)

def compile (r : CompileRequest) : Action m String := do
  let model ← load fs "Failed to load model" r.model Model.ofText?
  let a ← Action.ofExcept (inStep "Failed to compile model" Failure.ofCode)
    (Code.compileModel? model r.features r.base {})
  writeHeader fs r.directory a
  return ""

def router (r : RouterRequest) : Action m String := do
  let c ← load fs "Failed to load centroids" r.centroids NamedCentroids.ofText?
  let a ← Action.ofExcept (inStep "Failed to compile centroids" Failure.ofCode)
    (Code.compileRouter? c.centroids c.names c.centroids.count r.base {})
  writeHeader fs r.directory a
  return ""

/-- Carries a request out. -/
def perform : Request → Action m String
  | .train r => train fs r
  | .compile r => compile fs r
  | .router r => router fs r

/-- Reads words and does what they ask for. -/
def run (words : List String) : m Outcome := do
  match Request.ofWords words with
  | .error .help => return { code := 0, output := usageText }
  | .error .version => return { code := 0, output := versionText }
  | .error .misuse => return { code := 2, diagnostics := usageText }
  | .ok request =>
    match ← (perform fs request).run with
    | .ok output => return { code := 0, output := output }
    | .error (.failure f) => return { code := 1, diagnostics := f.text ++ "\n" }
    | .error .abort => return { code := 101 }

end

end ClauseTriage.Cli
