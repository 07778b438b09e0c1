import ClauseTriage.Decimal.Read
import ClauseTriage.Text.Pieces

/-!
# Words of a command line

A command reads its words from left to right: switches, parameters with a value, and operands. The
first word that cannot be read, or that asks for help, ends the reading.
-/
namespace ClauseTriage.Cli

/-- Why nothing is carried out. -/
inductive Stop where
  | help
  | version
  /-- The words do not make a request. -/
  | misuse
  deriving DecidableEq, Repr

/-- The form of a word. -/
inductive Word where
  /-- All later words are operands. -/
  | separator
  | long (name : String) (value : Option String)
  | letters (letters : List Char)
  | plain (text : String)
  deriving DecidableEq, Repr

/-- A lone hyphen is plain. -/
def Word.ofString (s : String) : Word :=
  match s.toList with
  | ['-', '-'] => .separator
  | '-' :: '-' :: rest =>
    let name := String.ofList (rest.takeWhile (· ≠ '='))
    match rest.dropWhile (· ≠ '=') with
    | [] => .long name none
    | _ :: value => .long name (some (String.ofList value))
  | '-' :: c :: cs => .letters (c :: cs)
  | _ => .plain s

variable {ρ : Type}

/-- An option without a value. -/
structure Switch (ρ : Type) where
  name : String
  letter : Option Char := none
  effect : ρ → Except Stop ρ

/-- An option with a value. -/
structure Parameter (ρ : Type) where
  name : String
  /-- It may be given more than once. -/
  repeats : Bool := false
  read? : String → ρ → Option ρ

/-- The words that a command knows. -/
structure Grammar (ρ : Type) where
  switches : List (Switch ρ)
  parameters : List (Parameter ρ) := []
  operands : List (String → ρ → Option ρ) := []

/-- What the next word is. -/
inductive Expected (ρ : Type) where
  | optionOrOperand
  | valueOf (o : Parameter ρ)
  | operand

/-- What was read so far. -/
structure Progress (ρ : Type) where
  request : ρ
  expected : Expected ρ := .optionOrOperand
  /-- Names of options that must not be given again. -/
  used : List String := []
  /-- Operands that may follow. -/
  operands : List (String → ρ → Option ρ) := []

namespace Progress

/-- Marks a name; one that is marked already is a misuse. -/
def mark (p : Progress ρ) (name : String) : Except Stop (Progress ρ) :=
  if p.used.contains name then .error .misuse else .ok { p with used := name :: p.used }

/-- Puts a new request in, or ends where there is none. -/
def renew (p : Progress ρ) (r : Option ρ) : Except Stop (Progress ρ) :=
  match r with
  | some request => .ok { p with request := request }
  | none => .error .misuse

def switch (p : Progress ρ) (s : Switch ρ) : Except Stop (Progress ρ) := do
  let request ← s.effect p.request
  ({ p with request := request }).mark s.name

def parameter (p : Progress ρ) (o : Parameter ρ) (value : String) : Except Stop (Progress ρ) := do
  let p ← if o.repeats then .ok p else p.mark o.name
  p.renew (o.read? value p.request)

def operand (p : Progress ρ) (text : String) : Except Stop (Progress ρ) :=
  match p.operands with
  | [] => .error .misuse
  | first :: rest => ({ p with operands := rest }).renew (first text p.request)

/-- The request, unless a value is still to come. -/
def finish (p : Progress ρ) : Except Stop ρ :=
  match p.expected with
  | .valueOf _ => .error .misuse
  | _ => .ok p.request

end Progress

namespace Grammar

def start (g : Grammar ρ) (request : ρ) : Progress ρ := { request, operands := g.operands }

/-- Reads one letter. -/
def letter (g : Grammar ρ) (p : Progress ρ) (c : Char) : Except Stop (Progress ρ) :=
  match g.switches.find? fun s => s.letter == some c with
  | some s => p.switch s
  | none => .error .misuse

/-- Reads a switch by its name. -/
def switch (g : Grammar ρ) (p : Progress ρ) (name : String) : Except Stop (Progress ρ) :=
  match g.switches.find? fun s => s.name == name with
  | some s => p.switch s
  | none => .error .misuse

def parameter? (g : Grammar ρ) (name : String) : Option (Parameter ρ) :=
  g.parameters.find? fun o => o.name == name

/-- Reads a word that may be an option. -/
def optionOrOperand (g : Grammar ρ) (p : Progress ρ) : Word → Except Stop (Progress ρ)
  | .separator => .ok { p with expected := .operand }
  | .plain text => p.operand text
  | .letters letters => letters.foldlM g.letter p
  | .long name (some value) =>
    match g.parameter? name with
    | some o => p.parameter o value
    | none => .error .misuse
  | .long name none =>
    match g.parameter? name with
    | some o => .ok { p with expected := .valueOf o }
    | none => g.switch p name

/-- Reads one word. A value that is a word of its own has to be plain. -/
def step (g : Grammar ρ) (p : Progress ρ) (word : String) : Except Stop (Progress ρ) :=
  match p.expected, Word.ofString word with
  | .optionOrOperand, w => g.optionOrOperand p w
  | .valueOf o, .plain value => ({ p with expected := .optionOrOperand }).parameter o value
  | .valueOf _, _ => .error .misuse
  | .operand, _ => p.operand word

/-- Reads all words. -/
def read (g : Grammar ρ) (request : ρ) (words : List String) : Except Stop ρ := do
  (← words.foldlM g.step (g.start request)).finish

end Grammar

/-! ### Kinds of options -/

def Switch.flag (name : String) (set : ρ → ρ) : Switch ρ := ⟨name, none, fun r => .ok (set r)⟩

/-- A path has at least one character. -/
def path? (s : String) : Option String := if s.isEmpty then none else some s

/-- A natural number of 64 bits in decimal digits, possibly behind a plus sign. -/
def natural? (s : String) : Option Nat :=
  let digits := match s.toList with
    | '+' :: rest => rest
    | all => all
  if digits.isEmpty || !digits.all Char.isDigit then none
  else
    let n := Decimal.valueOfDigits 0 digits
    if n < pow2 64 then some n else none

/-- Parts between commas. -/
def items (s : String) : List String := (Text.splitAtEach ',' s.toList).map String.ofList

/-- A parameter whose values are read on their own. -/
def Parameter.of {α : Type} (value? : String → Option α) (name : String) (set : α → ρ → ρ) :
    Parameter ρ :=
  { name, read? := fun s r => (value? s).map (set · r) }

def Parameter.text (name : String) (set : String → ρ → ρ) : Parameter ρ := .of some name set

def Parameter.path (name : String) (set : String → ρ → ρ) : Parameter ρ := .of path? name set

def Parameter.natural (name : String) (set : Nat → ρ → ρ) : Parameter ρ := .of natural? name set

def Parameter.decimal (name : String) (set : Float → ρ → ρ) : Parameter ρ :=
  .of Decimal.read? name set

/-- Lists with commas that may be given more than once. -/
def Parameter.list (name : String) (extend : List String → ρ → ρ) : Parameter ρ :=
  { name, repeats := true, read? := fun s r => some (extend (items s) r) }

end ClauseTriage.Cli
