import ClauseTriage.Proofs.Source.Words

/-!
# A language of commands

The methods of a generated class are read into a small language: declarations, assignments, one form
of sum, counted loops, comparisons and returns. A block of it runs on variables, with records and the
methods it calls given from outside.
-/
namespace ClauseTriage.Source

open Code Decimal Text

/-- Values of variables. -/
inductive Value where
  | int (n : Int)
  | double (x : Float)
  deriving DecidableEq

inductive NumberType where
  | int
  | double
  deriving DecidableEq

inductive Expression where
  | largest
  | integer (n : Int)
  | read (name : String)
  | product (left right : String)
  /-- The distance between a stored record, named by its index, and a record. -/
  | distance (index record : String)
  deriving DecidableEq

/-- Commands without a block of their own. -/
inductive Step where
  | declare (type : NumberType) (name : String) (value : Expression)
  | assign (name : String) (value : Expression)
  /-- Adds the square of the difference of a member of two records. -/
  | addSquare (name left right member : String)
  deriving DecidableEq

/-- A sequence of commands; a return ends it. -/
inductive Block where
  | done
  | step (s : Step) (next : Block)
  | result (value : Expression)
  /-- Rounds numbered from zero. -/
  | loop (counter : String) (rounds : Nat) (body next : Block)
  | whenLess (low high : String) (body next : Block)
  deriving DecidableEq

section Reading

/-- What one line says. -/
inductive Phrase where
  | step (s : Step)
  | result (value : Expression)
  | loop (counter : String) (rounds : Nat)
  | whenLess (low high : String)
  deriving DecidableEq

/-- An identifier. -/
def wordOf? (text : List Char) : Option String :=
  if text ≠ [] ∧ text.all isWord then some (String.ofList text) else none

/-- The two parts around the only separator. -/
def halves? (separator : Char) (text : List Char) : Option (List Char × List Char) :=
  match splitAtEach separator text with
  | [left, right] => some (left, right)
  | _ => none

def integerOf? : List Char → Option Int
  | '-' :: digits => (natOf? digits).map fun n => -(n : Int)
  | digits => (natOf? digits).map Int.ofNat

def expressionOf? (text : List Char) : Option Expression :=
  if text = "std::numeric_limits<double>::max()".toList then some .largest
  else match between? "norm_dist(center[".toList ")".toList text with
    | some inner => do
      let (index, record) ← halves? ']' inner
      return .distance (← wordOf? index) (← wordOf? (← stripFront? ", ".toList record))
    | none => match integerOf? text with
      | some n => some (.integer n)
      | none => match halves? '*' text with
        | some (left, right) => do return .product (← wordOf? left) (← wordOf? right)
        | none => (wordOf? text).map .read

/-- The member of which two records are compared. -/
def memberOf? (left right : List Char) (text : List Char) : Option (List Char) :=
  let size := (text.length - (left.length + right.length + 3)) / 2
  let member := (text.drop (left.length + 1)).take size
  if text = left ++ '.' :: member ++ '-' :: right ++ '.' :: member then some member else none

/-- A name and the expression after its equals sign. -/
def bindingOf? (text : List Char) : Option (String × Expression) := do
  let (name, value) ← halves? '=' text
  return (← wordOf? (← stripBack? " ".toList name), ← expressionOf? (← stripFront? " ".toList value))

/-- A command that ends with a semicolon. -/
def commandOf? (text : List Char) : Option Phrase :=
  match stripFront? "return ".toList text with
  | some value => (expressionOf? value).map .result
  | none => match stripFront? "double ".toList text with
    | some binding => (bindingOf? binding).map fun (name, e) => .step (.declare .double name e)
    | none => match stripFront? "int ".toList text with
      | some binding => (bindingOf? binding).map fun (name, e) => .step (.declare .int name e)
      | none => match between? "+=sq(".toList ")".toList (text.dropWhile isWord) with
        | some inner => do
          let member ← memberOf? ['a'] ['b'] inner
          return .step (.addSquare (← wordOf? (text.takeWhile isWord)) "a" "b" (String.ofList member))
        | none => (bindingOf? text).map fun (name, e) => .step (.assign name e)

/-- The head of a counted loop, from the declaration of its counter to the increment. -/
def loopOf? (text : List Char) : Option Phrase :=
  match splitAtEach ';' text with
  | [start, test, increment] => do
    let counter ← stripBack? " = 0".toList start
    let rounds ← natOf? (← stripFront? (' ' :: counter ++ " < ".toList) test)
    if increment = ' ' :: counter ++ "++".toList then
      return .loop (← wordOf? counter) rounds
    else none
  | _ => none

def phraseOf? (text : List Char) : Option Phrase :=
  match between? "for (int ".toList ") \x7b".toList text with
  | some head => loopOf? head
  | none => match between? "if (".toList ") \x7b".toList text with
    | some test => do
      let (low, high) ← halves? '<' test
      return .whenLess (← wordOf? (← stripBack? " ".toList low))
        (← wordOf? (← stripFront? " ".toList high))
    | none => (stripBack? ";".toList text).bind commandOf?

/-- The commands at a depth and the lines after them. The fuel bounds the number of lines. -/
def readBlock? : Nat → Nat → List Raw → Option (Block × List Raw)
  | 0, _, _ => none
  | _ + 1, _, [] => some (.done, [])
  | fuel + 1, depth, line :: rest =>
    match stripFront? (indent depth) line with
    | none => some (.done, line :: rest)
    | some text => do
      match ← phraseOf? text with
      | .result value => return (.result value, rest)
      | .step s =>
        let (next, rest) ← readBlock? fuel depth rest
        return (.step s next, rest)
      | .loop counter rounds =>
        let (body, rest) ← readBlock? fuel (depth + 1) rest
        let rest ← dropLine? (indent depth ++ "\x7d".toList) rest
        let (next, rest) ← readBlock? fuel depth rest
        return (.loop counter rounds body next, rest)
      | .whenLess low high =>
        let (body, rest) ← readBlock? fuel (depth + 1) rest
        let rest ← dropLine? (indent depth ++ "\x7d".toList) rest
        let (next, rest) ← readBlock? fuel depth rest
        return (.whenLess low high body next, rest)

/-- The body of a method is one block and nothing after it. -/
def readCode? (depth : Nat) (lines : List Raw) : Option Block :=
  match readBlock? (lines.length + 1) depth lines with
  | some (b, []) => some b
  | _ => none

variable {text : String} {fuel depth : Nat} {rest : List Raw}

/-- The first line of a block decides its first command. -/
theorem readBlock?_step {s : Step} (h : phraseOf? text.toList = some (.step s)) :
    readBlock? (fuel + 1) depth (raw ⟨depth, text⟩ :: rest) =
      (readBlock? fuel depth rest).map fun (next, rest) => (.step s next, rest) := by
  rw [readBlock?, raw, stripFront?_append]
  dsimp only
  rw [h]
  cases readBlock? fuel depth rest <;> rfl

theorem readBlock?_result {value : Expression} (h : phraseOf? text.toList = some (.result value)) :
    readBlock? (fuel + 1) depth (raw ⟨depth, text⟩ :: rest) = some (.result value, rest) := by
  rw [readBlock?, raw, stripFront?_append]
  dsimp only
  rw [h]
  rfl

/-- A block ends before a line that is less deep. -/
theorem readBlock?_close :
    readBlock? (fuel + 1) (depth + 1) (raw ⟨depth, "\x7d"⟩ :: rest) =
      some (.done, raw ⟨depth, "\x7d"⟩ :: rest) := by
  have hindent : indent (depth + 1) = indent depth ++ [' ', ' ', ' ', ' '] := by
    rw [indent, Nat.mul_add, ← List.replicate_append_replicate]
    rfl
  have hline : stripFront? (indent (depth + 1)) (raw ⟨depth, "\x7d"⟩) = none := by
    rw [Option.eq_none_iff_forall_ne_some]
    intro tail htail
    rw [stripFront?_eq_some_iff, hindent, raw, List.append_assoc, List.append_cancel_left_eq] at htail
    exact absurd htail (by simp)
  rw [readBlock?, hline]

theorem readBlock?_loop {counter : String} {rounds : Nat} {body : Block} {after : List Raw}
    (h : phraseOf? text.toList = some (.loop counter rounds))
    (hbody : readBlock? fuel (depth + 1) rest = some (body, raw ⟨depth, "\x7d"⟩ :: after)) :
    readBlock? (fuel + 1) depth (raw ⟨depth, text⟩ :: rest) =
      (readBlock? fuel depth after).map fun (next, rest) =>
        (.loop counter rounds body next, rest) := by
  have hclose : raw ⟨depth, "\x7d"⟩ = indent depth ++ "\x7d".toList := rfl
  rw [readBlock?, raw, stripFront?_append]
  dsimp only
  rw [h, hbody]
  simp only [Option.bind_eq_bind, Option.bind_some, hclose, dropLine?_cons]
  cases readBlock? fuel depth after <;> rfl

theorem readBlock?_whenLess {low high : String} {body : Block} {after : List Raw}
    (h : phraseOf? text.toList = some (.whenLess low high))
    (hbody : readBlock? fuel (depth + 1) rest = some (body, raw ⟨depth, "\x7d"⟩ :: after)) :
    readBlock? (fuel + 1) depth (raw ⟨depth, text⟩ :: rest) =
      (readBlock? fuel depth after).map fun (next, rest) =>
        (.whenLess low high body next, rest) := by
  have hclose : raw ⟨depth, "\x7d"⟩ = indent depth ++ "\x7d".toList := rfl
  rw [readBlock?, raw, stripFront?_append]
  dsimp only
  rw [h, hbody]
  simp only [Option.bind_eq_bind, Option.bind_some, hclose, dropLine?_cons]
  cases readBlock? fuel depth after <;> rfl

theorem memberOf?_append (left right member : List Char) :
    memberOf? left right (left ++ '.' :: member ++ '-' :: right ++ '.' :: member) = some member := by
  have hsize : ((left ++ '.' :: member ++ '-' :: right ++ '.' :: member).length -
      (left.length + right.length + 3)) / 2 = member.length := by
    simp only [List.length_append, List.length_cons]
    omega
  have hmember : ((left ++ '.' :: member ++ '-' :: right ++ '.' :: member).drop
      (left.length + 1)).take member.length = member := by
    have htext : left ++ '.' :: member ++ '-' :: right ++ '.' :: member =
        (left ++ ['.']) ++ (member ++ ('-' :: right ++ '.' :: member)) := by simp
    rw [htext, List.drop_left' (by simp), List.take_left' rfl]
  rw [memberOf?, hsize, hmember, if_pos rfl]

/-- The sum of a member's squared difference is read with that member. -/
theorem phraseOf?_addSquare (member : String) :
    phraseOf? ("dist+=sq(a." ++ member ++ "-b." ++ member ++ ");").toList =
      some (.step (.addSquare "dist" "a" "b" member)) := by
  obtain ⟨inner, hinner, htext⟩ : ∃ inner, memberOf? ['a'] ['b'] inner = some member.toList ∧
      ("dist+=sq(a." ++ member ++ "-b." ++ member ++ ");").toList =
        "dist".toList ++ ("+=sq(".toList ++ (inner ++ ")".toList)) ++ ";".toList :=
    ⟨_, memberOf?_append ['a'] ['b'] member.toList, by simp⟩
  rw [htext]
  obtain ⟨command, hcommand⟩ : ∃ command, command =
    "dist".toList ++ ("+=sq(".toList ++ (inner ++ ")".toList)) := ⟨_, rfl⟩
  have hname : command.takeWhile isWord = "dist".toList := by rw [hcommand]; rfl
  have hsum : command.dropWhile isWord = "+=sq(".toList ++ (inner ++ ")".toList) := by
    rw [hcommand]
    rfl
  have hreturn : stripFront? "return ".toList command = none := by rw [hcommand]; rfl
  have hdouble : stripFront? "double ".toList command = none := by rw [hcommand]; rfl
  have hint : stripFront? "int ".toList command = none := by rw [hcommand]; rfl
  have hfor : between? "for (int ".toList ") \x7b".toList (command ++ ";".toList) = none := by
    rw [hcommand]
    rfl
  have hif : between? "if (".toList ") \x7b".toList (command ++ ";".toList) = none := by
    rw [hcommand]
    rfl
  rw [← hcommand, phraseOf?, hfor, hif]
  dsimp only
  rw [stripBack?_append, Option.bind_some, commandOf?, hreturn, hdouble, hint, hname, hsum,
    between?_append]
  simp only [hinner, Option.bind_eq_bind, Option.bind_some, String.ofList_toList]
  rfl

/-- The head of a loop is read with its number of rounds. -/
theorem phraseOf?_loop (rounds : Nat) :
    phraseOf? ("for (int i = 0; i < " ++ Text.nat rounds ++ "; i++) \x7b").toList =
      some (.loop "i" rounds) := by
  have htext : ("for (int i = 0; i < " ++ Text.nat rounds ++ "; i++) \x7b").toList =
      "for (int ".toList ++ ("i = 0".toList ++ ';' :: ((" i < ".toList ++ (Text.nat rounds).toList) ++
        ';' :: " i++".toList) ++ ") \x7b".toList) := by
    simp
  have htest : ';' ∉ " i < ".toList ++ (Text.nat rounds).toList := by
    rw [List.mem_append, not_or]
    exact ⟨by decide, (word_nat rounds).notMem (by decide)⟩
  have hparts : splitAtEach ';' ("i = 0".toList ++ ';' :: ((" i < ".toList ++
      (Text.nat rounds).toList) ++ ';' :: " i++".toList)) =
        ["i = 0".toList, " i < ".toList ++ (Text.nat rounds).toList, " i++".toList] := by
    rw [splitAtEach_append (by decide), splitAtEach_append htest, splitAtEach_of_notMem (by decide)]
  have hcounter : stripBack? " = 0".toList "i = 0".toList = some ['i'] := by decide
  have hword : wordOf? ['i'] = some "i" := by decide
  rw [htext, phraseOf?, between?_append]
  dsimp only
  rw [loopOf?, hparts]
  simp only [hcounter, hword, Option.bind_eq_bind, Option.bind_some]
  rw [show ' ' :: ['i'] ++ " < ".toList = " i < ".toList from rfl, stripFront?_append,
    Option.bind_some, natOf?_nat, Option.bind_some,
    if_pos (show " i++".toList = ' ' :: ['i'] ++ "++".toList from rfl)]
  rfl

end Reading

section Running

abbrev Variables := String → Option Value

def Variables.set (vars : Variables) (name : String) (v : Value) : Variables :=
  fun n => if n = name then some v else vars n

@[simp] theorem Variables.set_same (vars : Variables) (name : String) (v : Value) :
    vars.set name v name = some v := if_pos rfl

/-- A record: the values of its members. -/
abbrev Record := String → Option Float

def Record.set (r : Record) (member : String) (x : Float) : Record :=
  fun m => if m = member then some x else r m

/-- What a block uses besides its variables. -/
structure Surroundings where
  records : String → Option Record := fun _ => none
  /-- The stored records, by index. -/
  stored : List Record := []
  square : Float → Option Float := fun _ => none
  distance : Record → Record → Option Float := fun _ _ => none

/-- A value in a variable of a type; an integer becomes the double of its size. -/
def Value.as? : NumberType → Value → Option Value
  | .int, .int n => some (.int n)
  | .int, .double _ => none
  | .double, .int n => some (.double (Float.ofInt n))
  | .double, .double x => some (.double x)

def Value.type : Value → NumberType
  | .int _ => .int
  | .double _ => .double

def Variables.double? (vars : Variables) (name : String) : Option Float :=
  match vars name with
  | some (.double x) => some x
  | _ => none

variable (σ : Surroundings)

def Expression.value? (vars : Variables) : Expression → Option Value
  | largest => some (.double largestDouble)
  | integer n => some (.int n)
  | read name => vars name
  | product left right => do return .double ((← vars.double? left) * (← vars.double? right))
  | distance index record =>
    match vars index with
    | some (.int (.ofNat i)) => do
      return .double (← σ.distance (← σ.stored[i]?) (← σ.records record))
    | _ => none

/-- A declared variable has the type of its declaration, and keeps it. -/
def Step.run? (vars : Variables) : Step → Option Variables
  | declare type name value => do return vars.set name (← (← value.value? σ vars).as? type)
  | assign name value => do
    return vars.set name (← (← value.value? σ vars).as? (← vars name).type)
  | addSquare name left right member => do
    let difference := (← (← σ.records left) member) - (← (← σ.records right) member)
    return vars.set name (.double ((← vars.double? name) + (← σ.square difference)))

/-- How a block ends: with a return, or with its variables. -/
inductive Ending where
  | returned (v : Value)
  | ran (vars : Variables)

/-- Rounds of a body from a number on. A body that changes its counter has no meaning. -/
def runRounds? (body : Variables → Option Ending) (counter : String) :
    Nat → Nat → Variables → Option Ending
  | 0, _, vars => some (.ran vars)
  | rounds + 1, i, vars => do
    match ← body (vars.set counter (.int i)) with
    | .returned v => return .returned v
    | .ran vars =>
      if vars counter = some (.int i) then runRounds? body counter rounds (i + 1) vars else none

def Block.run? : Block → Variables → Option Ending
  | done, vars => some (.ran vars)
  | step s next, vars => do next.run? (← s.run? σ vars)
  | result value, vars => do return .returned (← value.value? σ vars)
  | loop counter rounds body next, vars => do
    match ← runRounds? (fun vars => body.run? vars) counter rounds 0 vars with
    | .returned v => return .returned v
    | .ran vars => next.run? vars
  | whenLess low high body next, vars => do
    if (← vars.double? low) < (← vars.double? high) then
      match ← body.run? vars with
      | .returned v => return .returned v
      | .ran vars => next.run? vars
    else next.run? vars

/-- What a method returns, with its numeric arguments as first variables. -/
def Block.returns? (b : Block) (arguments : Variables) : Option Value :=
  match b.run? σ arguments with
  | some (.returned v) => some v
  | _ => none

end Running

end ClauseTriage.Source
