import ClauseTriage.Code.Router
import ClauseTriage.Proofs.Source.Commands

/-!
# The class of a router

A line one level deep that ends with an opening brace begins a method of the class. The method that
sets up the centers is a list of stores; the others are blocks of commands.
-/
namespace ClauseTriage.Source

open Code Decimal Text

/-- A method of a class: what stands before its opening brace, and the lines of its body. -/
structure Method where
  head : List Char
  body : List Raw
  deriving DecidableEq

/-- The head that a line begins a method with. -/
def headOf? (line : Raw) : Option (List Char) :=
  match stripFront? (indent 1) line with
  | none => none
  | some (' ' :: _) => none
  | some text => stripBack? " \x7b".toList text

/-- The methods of a text, in order. -/
def methodsOf? : List Raw → Option (List Method)
  | [] => some []
  | line :: rest =>
    match headOf? line with
    | none => methodsOf? rest
    | some head => do
      let (body, _) ← linesTo? (indent 1 ++ "\x7d".toList) rest
      return ⟨head, body⟩ :: (← methodsOf? rest)

/-- The body of the first method with a head. -/
def bodyOf? (methods : List Method) (head : List Char) : Option (List Raw) :=
  (methods.find? fun m => m.head = head).map Method.body

/-- One number stored in a member of a center. -/
structure Store where
  index : Nat
  member : String
  value : Float

/-- What a line of the set-up stores; blank lines and comments store nothing. -/
def storeOf? (line : Raw) : Option (Option Store) :=
  if line = [] then some none
  else match stripFront? (indent 2 ++ "// ".toList) line with
    | some _ => some none
    | none => do
      let text ← stripFront? (indent 2 ++ "center[".toList) line
      let index ← natOf? (text.takeWhile Char.isDigit)
      let binding ← between? "].".toList ";".toList (text.dropWhile Char.isDigit)
      let (member, value) ← splitLast? " = ".toList binding
      return some ⟨index, String.ofList member, ← readChars? value⟩

def storesOf? : List Raw → Option (List Store)
  | [] => some []
  | line :: rest => do
    let first ← storeOf? line
    return first.toList ++ (← storesOf? rest)

/-- The size of the array of centers, where a line declares it. -/
def slotsAt? (record : String) (line : Raw) : Option Nat :=
  (between? (indent 1 ++ (record ++ " center[").toList) "];".toList line).bind natOf?

/-- The number of centers that a class declares. -/
def slotsOf? (record : String) (lines : List Raw) : Option Nat := lines.findSome? (slotsAt? record)

/-- The code of a router. -/
structure RouterCode where
  slots : Nat
  stores : List Store
  square : Block
  distance : Block
  closest : Block

/-- The code of a class whose records are of a given type. -/
def readRouter? (record : String) (lines : List Raw) : Option RouterCode := do
  let methods ← methodsOf? lines
  let slots ← slotsOf? record lines
  let stores ← storesOf? (← bodyOf? methods "void set_up_centers()".toList)
  let square ← readCode? 2 (← bodyOf? methods "double sq(double x) const".toList)
  let distance ← readCode? 2 (← bodyOf? methods
    ("double norm_dist(const " ++ record ++ "& a, const " ++ record ++ "& b) const").toList)
  let closest ← readCode? 2 (← bodyOf? methods
    ("int which_is_closest(const " ++ record ++ "& p) const").toList)
  return ⟨slots, stores, square, distance, closest⟩

/-- A store into a record that the class does not declare has no meaning. -/
def Store.run? (stored : List Record) (s : Store) : Option (List Record) :=
  stored[s.index]?.map fun r => stored.set s.index (r.set s.member s.value)

namespace RouterCode

variable (c : RouterCode)

/-- The centers after the set-up; their members are unknown before it. -/
def centers? : Option (List Record) :=
  c.stores.foldlM Store.run? (List.replicate c.slots fun _ => none)

def square? (x : Float) : Option Float :=
  match c.square.returns? {} (fun n => if n = "x" then some (.double x) else none) with
  | some (.double y) => some y
  | _ => none

def distance? (a b : Record) : Option Float :=
  let records := fun n => if n = "a" then some a else if n = "b" then some b else none
  match c.distance.returns? { records, square := c.square? } fun _ => none with
  | some (.double d) => some d
  | _ => none

/-- What the router returns for a record. -/
def closest? (point : Record) : Option Int := do
  let stored ← c.centers?
  let records := fun n => if n = "p" then some point else none
  match ← c.closest.returns? { records, stored, distance := c.distance? } fun _ => none with
  | .int i => return i
  | .double _ => none

end RouterCode

section Methods

variable {line : Raw} {rest : List Raw}

theorem headOf?_of_margin (h : Margin line) : headOf? line = none := by
  cases line with
  | nil => rfl
  | cons c line =>
    rw [headOf?, show indent 1 = ' ' :: [' ', ' ', ' '] from rfl,
      stripFront?_cons_ne (h c rfl).1.symm]

/-- No method begins with an empty line or two levels deep. -/
theorem headOf?_of_deep {l : Line} (h : l = .blank ∨ 2 ≤ l.depth) : headOf? (raw l) = none := by
  rcases h with rfl | h
  · rfl
  · obtain ⟨n, hn⟩ : ∃ n, 4 * l.depth = 4 + (n + 1) := ⟨4 * l.depth - 5, by omega⟩
    have hraw : raw l = indent 1 ++ ' ' :: (List.replicate n ' ' ++ l.text.toList) := by
      rw [raw, indent, hn, ← List.replicate_append_replicate, List.append_assoc]
      rfl
    rw [hraw, headOf?, stripFront?_append]
    rfl

/-- A line that ends with an opening brace and does not begin with a space is a head. -/
theorem headOf?_raw {text : String} {head : List Char} {c : Char}
    (htext : text.toList = head ++ " \x7b".toList) (hhead : head.head? = some c) (hc : c ≠ ' ') :
    headOf? (raw ⟨1, text⟩) = some head := by
  obtain ⟨cs, rfl⟩ := List.head?_eq_some_iff.1 hhead
  rw [raw, htext, headOf?, stripFront?_append]
  split
  · contradiction
  · rename_i heq
    exact absurd (List.cons.inj (Option.some.inj heq)).1 hc
  · rename_i heq
    rw [← Option.some.inj heq, stripBack?_append]

theorem methodsOf?_cons (h : headOf? line = none) : methodsOf? (line :: rest) = methodsOf? rest := by
  rw [methodsOf?, h]

theorem methodsOf?_append {lines : List Raw} (h : ∀ l ∈ lines, headOf? l = none) :
    methodsOf? (lines ++ rest) = methodsOf? rest := by
  induction lines with
  | nil => rfl
  | cons line lines ih =>
    obtain ⟨hline, hlines⟩ := List.forall_mem_cons.1 h
    rw [List.cons_append, methodsOf?_cons hline, ih hlines]

/-- A method whose body is deep is read back, whatever lines follow. -/
theorem methodsOf?_method {head : List Char} {body : List Line} (hhead : headOf? line = some head)
    (hbody : ∀ l ∈ body, l = .blank ∨ 2 ≤ l.depth) :
    methodsOf? (line :: (body.map raw ++ raw ⟨1, "\x7d"⟩ :: rest)) =
      (methodsOf? rest).map fun ms => ⟨head, body.map raw⟩ :: ms := by
  have hclose : raw ⟨1, "\x7d"⟩ ∉ body.map raw := by
    intro hmem
    obtain ⟨l, hl, heq⟩ := List.mem_map.1 hmem
    have hdeep := congrArg (fun cs => cs[4]?) heq
    rcases hbody l hl with rfl | hdepth
    · simp [raw, Line.blank, indent] at hdeep
    · have hspace : (raw l)[4]? = some ' ' := by
        rw [raw, indent, List.getElem?_append_left (by rw [List.length_replicate]; omega),
          List.getElem?_replicate, if_pos (by omega)]
      rw [hspace] at hdeep
      exact absurd hdeep (by decide)
  have hrest : methodsOf? (body.map raw ++ raw ⟨1, "\x7d"⟩ :: rest) = methodsOf? rest := by
    rw [methodsOf?_append (List.forall_mem_map.2 fun l hl => headOf?_of_deep (hbody l hl)),
      methodsOf?_cons rfl]
  rw [methodsOf?, hhead]
  dsimp only
  rw [hrest, show indent 1 ++ "\x7d".toList = raw ⟨1, "\x7d"⟩ from rfl, linesTo?_append hclose]
  cases methodsOf? rest <;> rfl

end Methods

section Stores

variable {record : String} {line : Raw} {rest : List Raw}

theorem slotsAt?_of_margin (h : Margin line) : slotsAt? record line = none := by
  cases line with
  | nil => rfl
  | cons c line =>
    have hfront : indent 1 ++ (record ++ " center[").toList =
        ' ' :: ([' ', ' ', ' '] ++ (record ++ " center[").toList) := rfl
    rw [slotsAt?, hfront, between?_cons_ne (h c rfl).1.symm, Option.bind_none]

theorem slotsAt?_of_back (h : stripBack? "];".toList line = none) : slotsAt? record line = none := by
  rw [slotsAt?, between?_eq_none h, Option.bind_none]

theorem slotsAt?_slots (count : Nat) :
    slotsAt? record (raw ⟨1, record ++ " center[" ++ Text.nat count ++ "];"⟩) = some count := by
  have hraw : raw ⟨1, record ++ " center[" ++ Text.nat count ++ "];"⟩ =
      indent 1 ++ (record ++ " center[").toList ++ ((Text.nat count).toList ++ "];".toList) := by
    simp [raw]
  rw [slotsAt?, hraw, between?_append, Option.bind_some, natOf?_nat]

theorem slotsOf?_append {lines : List Raw} (h : ∀ l ∈ lines, slotsAt? record l = none) :
    slotsOf? record (lines ++ rest) = slotsOf? record rest := by
  rw [slotsOf?, List.findSome?_append, List.findSome?_eq_none_iff.2 h, Option.none_or, slotsOf?]

theorem slotsOf?_cons (h : slotsAt? record line = none) :
    slotsOf? record (line :: rest) = slotsOf? record rest := by
  rw [slotsOf?, List.findSome?_cons, h, slotsOf?]

theorem storesOf?_none (h : storeOf? line = some none) :
    storesOf? (line :: rest) = storesOf? rest := by
  rw [storesOf?, h]
  cases storesOf? rest <;> rfl

theorem storesOf?_some {s : Store} (h : storeOf? line = some (some s)) :
    storesOf? (line :: rest) = (storesOf? rest).map fun ss => s :: ss := by
  rw [storesOf?, h]
  cases storesOf? rest <;> rfl

/-- An assignment to a member is read as its store. -/
theorem storeOf?_assignment (index : Nat) (member : String) {value : Float}
    (hvalue : value.isFinite = true) :
    storeOf? (raw ⟨2, "center[" ++ Text.nat index ++ "]." ++ member ++ " = " ++ literal value ++
      ";"⟩) = some (some ⟨index, member, value⟩) := by
  have hraw : raw ⟨2, "center[" ++ Text.nat index ++ "]." ++ member ++ " = " ++ literal value ++
      ";"⟩ = indent 2 ++ "center[".toList ++ (digitsOf index ++ ("].".toList ++
        ((member.toList ++ (" = ".toList ++ (literal value).toList)) ++ ";".toList))) := by
    simp [raw, toList_nat]
  have hdigits : ∀ c ∈ digitsOf index, c.isDigit = true := fun _ => isDigit_of_mem_digitsOf
  obtain ⟨htake, hdrop⟩ := takeWhile_digits ("].".toList ++
    ((member.toList ++ (" = ".toList ++ (literal value).toList)) ++ ";".toList)) hdigits (by simp)
  have hequals : '=' ∉ ' ' :: (literal value).toList := by
    rw [List.mem_cons, not_or]
    exact ⟨by decide, notMem_of_numeric (numeric_literal hvalue) (by decide)⟩
  have hsplit : splitLast? " = ".toList (member.toList ++ (" = ".toList ++ (literal value).toList)) =
      some (member.toList, (literal value).toList) := by
    change splitLast? (' ' :: '=' :: [' '])
      (member.toList ++ (' ' :: '=' :: [' '] ++ (literal value).toList)) = _
    exact splitLast?_append member.toList hequals
  have hindex : natOf? (digitsOf index) = some index := by rw [← toList_nat, natOf?_nat]
  have hread : readChars? (literal value).toList = some value := read?_literal hvalue
  have hcomment : stripFront? (indent 2 ++ "// ".toList) (indent 2 ++ "center[".toList ++
      (digitsOf index ++ ("].".toList ++ ((member.toList ++ (" = ".toList ++
        (literal value).toList)) ++ ";".toList)))) = none := rfl
  rw [hraw, storeOf?, if_neg (by simp [indent]), hcomment]
  dsimp only
  rw [stripFront?_append]
  simp only [Option.bind_eq_bind, Option.bind_some, htake, hdrop, between?_append, hsplit, hindex,
    hread, String.ofList_toList]
  rfl

end Stores

end ClauseTriage.Source
