import ClauseTriage.Code.Statement
import ClauseTriage.Proofs.Decimal.Fixed
import ClauseTriage.Proofs.Source.Lines
import ClauseTriage.Proofs.Tree.Unfolding

/-!
# Reading the body of an estimator

The lines of a body are read by a grammar of two forms, a `return` and a conditional with two
branches, each branch one level deeper. A body read this way has a value once every accessor has one,
and the body written for a tree has the ratio of the leaf that the accessors lead to.
-/
namespace ClauseTriage.Source

open Code Decimal Text

/-- Takes one given line away. -/
def dropLine? (line : Raw) : List Raw → Option (List Raw)
  | [] => none
  | l :: rest => if l = line then some rest else none

/-- One statement at a depth, and the lines after it. The fuel bounds the lines of the statement. -/
def readStatement? : Nat → Nat → List Raw → Option (Statement × List Raw)
  | 0, _, _ => none
  | _ + 1, _, [] => none
  | fuel + 1, depth, line :: rest => do
    let text ← stripFront? (indent depth) line
    match between? "return ".toList ";".toList text with
    | some literal => return (.result (String.ofList literal), rest)
    | none =>
      let test ← between? "if ( ".toList " ) \x7b".toList text
      let (accessor, threshold) ← splitLast? " <= ".toList test
      let (low, rest) ← readStatement? fuel (depth + 1) rest
      let rest ← dropLine? (indent depth ++ "\x7d else \x7b".toList) rest
      let (high, rest) ← readStatement? fuel (depth + 1) rest
      let rest ← dropLine? (indent depth ++ "\x7d".toList) rest
      return (.branch (String.ofList accessor) (String.ofList threshold) low high, rest)

/-- A body is one statement and nothing after it. -/
def readBody? (depth : Nat) (lines : List Raw) : Option Statement :=
  match readStatement? lines.length depth lines with
  | some (s, []) => some s
  | _ => none

/-- The value of a text of digits. -/
def natOf? (digits : List Char) : Option Nat :=
  if digits ≠ [] ∧ digits.all Char.isDigit then some (valueOfDigits 0 digits) else none

/-- The value of what a leaf returns: a decimal, or the quotient of two. -/
def ratioOf? (literal : List Char) : Option Float :=
  match splitAtEach '/' literal with
  | [value] => readChars? value
  | [a, b] => do return (← readChars? a) / (← readChars? b)
  | _ => none

/-- The value of a threshold: the decimal before the suffix. -/
def thresholdOf? (literal : List Char) : Option Float :=
  (stripBack? ['f'] literal).bind readChars?

/-- The value of a body, with a value for each accessor. -/
def valueOf? (env : String → Float) : Statement → Option Float
  | .result literal => ratioOf? literal.toList
  | .branch accessor threshold low high => do
    let bound ← thresholdOf? threshold.toList
    if env accessor ≤ bound then valueOf? env low else valueOf? env high

section Reading

theorem dropLine?_cons (line : Raw) (rest : List Raw) : dropLine? line (line :: rest) = some rest :=
  if_pos rfl

/-- Thresholds hold no comparison sign, so a test has one last comparison. -/
def Plain : Statement → Prop
  | .result _ => True
  | .branch _ threshold low high => '<' ∉ threshold.toList ∧ Plain low ∧ Plain high

/-- The test of a conditional names the accessor and the threshold it was written from. -/
theorem splitLast?_test (accessor : List Char) {threshold : List Char} (h : '<' ∉ threshold) :
    splitLast? " <= ".toList (accessor ++ (" <= ".toList ++ threshold)) =
      some (accessor, threshold) := by
  change splitLast? (' ' :: '<' :: ['=', ' ']) (accessor ++ (' ' :: '<' :: ['=', ' '] ++ threshold)) = _
  exact splitLast?_append accessor (by simpa using h)

theorem raw_result (depth : Nat) (literal : String) :
    raw ⟨depth, "return " ++ literal ++ ";"⟩ =
      indent depth ++ ("return ".toList ++ (literal.toList ++ ";".toList)) := by
  simp [raw]

theorem raw_test (depth : Nat) (accessor threshold : String) :
    raw ⟨depth, "if ( " ++ accessor ++ " <= " ++ threshold ++ " ) \x7b"⟩ =
      indent depth ++ ("if ( ".toList ++
        ((accessor.toList ++ (" <= ".toList ++ threshold.toList)) ++ " ) \x7b".toList)) := by
  simp [raw]

/-- A statement is read back from its lines, whatever lines follow. -/
theorem readStatement?_lines {s : Statement} (hs : Plain s) (depth fuel : Nat) (rest : List Raw)
    (hfuel : (s.lines depth).length ≤ fuel) :
    readStatement? fuel depth ((s.lines depth).map raw ++ rest) = some (s, rest) := by
  induction s generalizing depth fuel rest with
  | result literal =>
    obtain ⟨fuel, rfl⟩ : ∃ n, fuel = n + 1 := ⟨fuel - 1, by simp [Statement.lines] at hfuel; omega⟩
    rw [Statement.lines, List.map_singleton, raw_result, List.singleton_append, readStatement?,
      stripFront?_append]
    simp only [Option.bind_eq_bind, Option.bind_some, between?_append, Option.pure_def,
      String.ofList_toList]
  | branch accessor threshold low high ihl ihh =>
    obtain ⟨hthreshold, hlow, hhigh⟩ := hs
    simp only [Statement.lines, List.length_cons, List.length_append, List.length_nil] at hfuel
    obtain ⟨fuel, rfl⟩ : ∃ n, fuel = n + 1 := ⟨fuel - 1, by omega⟩
    obtain ⟨test, htest, hline⟩ : ∃ test,
        splitLast? " <= ".toList test = some (accessor.toList, threshold.toList) ∧
        raw ⟨depth, "if ( " ++ accessor ++ " <= " ++ threshold ++ " ) \x7b"⟩ =
          indent depth ++ ("if ( ".toList ++ (test ++ " ) \x7b".toList)) :=
      ⟨_, splitLast?_test _ hthreshold, raw_test depth accessor threshold⟩
    have hreturn : between? "return ".toList ";".toList
        ("if ( ".toList ++ (test ++ " ) \x7b".toList)) = none :=
      between?_cons_ne (by decide) _ _ _
    simp only [Statement.lines, List.map_cons, List.map_append, List.map_nil, List.cons_append,
      List.append_assoc, List.nil_append, hline]
    rw [readStatement?, stripFront?_append]
    simp only [Option.bind_eq_bind, Option.bind_some, hreturn, between?_append, htest,
      Option.pure_def, String.ofList_toList]
    rw [ihl hlow (depth + 1) fuel _ (by omega)]
    simp only [Option.bind_some]
    rw [show raw ⟨depth, "\x7d else \x7b"⟩ = indent depth ++ "\x7d else \x7b".toList from rfl,
      dropLine?_cons]
    simp only [Option.bind_some]
    rw [ihh hhigh (depth + 1) fuel _ (by omega)]
    simp only [Option.bind_some]
    rw [show raw ⟨depth, "\x7d"⟩ = indent depth ++ "\x7d".toList from rfl, dropLine?_cons]
    rfl

theorem readBody?_lines {s : Statement} (hs : Plain s) (depth : Nat) :
    readBody? depth ((s.lines depth).map raw) = some s := by
  have := readStatement?_lines hs depth ((s.lines depth).map raw).length [] (by simp)
  rw [List.append_nil] at this
  rw [readBody?, this]

end Reading

section Values

theorem toList_nat (n : Nat) : (Text.nat n).toList = digitsOf n := by
  rw [Text.nat, String.toList_ofList, digitsOf]

theorem natOf?_nat (n : Nat) : natOf? (Text.nat n).toList = some n := by
  have hdigits : (digitsOf n).all Char.isDigit = true :=
    List.all_eq_true.2 fun _ => isDigit_of_mem_digitsOf
  rw [toList_nat, natOf?, if_pos ⟨digitsOf_ne_nil n, hdigits⟩, valueOfDigits_digitsOf]

theorem nat_injective : Function.Injective Text.nat := fun n k h =>
  digitsOf_injective (by rw [← toList_nat, h, toList_nat])

variable {x : Float}

theorem notMem_of_numeric {c : Char} {cs : List Char} (h : Numeric cs) (hc : isNumeric c = false) :
    c ∉ cs := fun hmem => by simp [h c hmem] at hc

theorem numeric_literal (hx : x.isFinite = true) : Numeric (literal x).toList := by
  rw [literal, Style.write, String.toList_ofList]
  exact numeric_chars _ hx

theorem thresholdOf?_thresholdLiteral (hx : x.isFinite = true) :
    thresholdOf? (thresholdLiteral x).toList = some x := by
  rw [thresholdOf?, thresholdLiteral, String.toList_append]
  change (stripBack? ['f'] ((literal x).toList ++ ['f'])).bind readChars? = _
  rw [stripBack?_append, Option.bind_some]
  exact read?_literal hx

theorem lt_notMem_thresholdLiteral (hx : x.isFinite = true) :
    '<' ∉ (thresholdLiteral x).toList := by
  rw [thresholdLiteral, String.toList_append, List.mem_append, not_or]
  exact ⟨notMem_of_numeric (numeric_literal hx) (by decide), by decide⟩

theorem readChars?_oneDecimal (hx : x.isFinite = true) :
    readChars? (fixedChars 1 x) = some (oneDecimal x) := by
  obtain ⟨b, hb⟩ := Double.isFinite_iff.1 hx
  rw [oneDecimal, readChars?_fixedChars one_pos hb, Option.getD_some]

/-- The value of a leaf's literal is its ratio. -/
theorem ratioOf?_leafLiteral {w : Weights Float} (hdiscard : w.discard.isFinite = true)
    (hkeep : w.keep.isFinite = true) :
    ratioOf? (leafLiteral w).toList = some (leafRatio w) := by
  have hslash : isNumeric '/' = false := by decide
  rw [leafLiteral, leafRatio]
  split
  · decide +kernel
  · have htext : (fixed 1 w.discard ++ "/" ++ fixed 1 w.keep).toList =
        fixedChars 1 w.discard ++ '/' :: fixedChars 1 w.keep := by
      simp [fixed]
    rw [htext, ratioOf?, splitAtEach_append (notMem_of_numeric (numeric_fixedChars 1 hdiscard) hslash),
      splitAtEach_of_notMem (notMem_of_numeric (numeric_fixedChars 1 hkeep) hslash)]
    simp only [readChars?_oneDecimal hdiscard, readChars?_oneDecimal hkeep, Option.bind_eq_bind,
      Option.bind_some, Option.pure_def]

end Values

section Trees

/-- An unfolded tree whose leaves and thresholds are finite and whose features have accessors. -/
def Readable (accessors : List String) : Node Float → Prop
  | .leaf _ w => w.discard.isFinite = true ∧ w.keep.isFinite = true
  | .split _ _ feature threshold low high =>
    feature < accessors.length ∧ threshold.isFinite = true ∧ Readable accessors low ∧
      Readable accessors high

variable {accessors : List String} {n : Node Float}

theorem plain_ofNode (h : Readable accessors n) : Plain (Statement.ofNode accessors n) := by
  induction n with
  | leaf id w => trivial
  | split id w feature threshold low high ihl ihh =>
    obtain ⟨-, hthreshold, hlow, hhigh⟩ := h
    exact ⟨lt_notMem_thresholdLiteral hthreshold, ihl hlow, ihh hhigh⟩

/-- The statement of an unfolded tree has the ratio of the leaf that the row of values reaches. -/
theorem valueOf?_ofNode (h : Readable accessors n) (env : String → Float) :
    ∃ leaf, n.leafFor? (accessors.map env) = some leaf ∧
      valueOf? env (Statement.ofNode accessors n) = some (leafRatio leaf.2) := by
  induction n with
  | leaf id w =>
    refine ⟨(id, w), rfl, ?_⟩
    rw [Statement.ofNode, valueOf?, ratioOf?_leafLiteral h.1 h.2]
  | split id w feature threshold low high ihl ihh =>
    obtain ⟨hfeature, hthreshold, hlow, hhigh⟩ := h
    have hvalue : (accessors.map env)[feature]? = some (env (accessors.getD feature "")) := by
      simp [hfeature]
    have hcompare : Scalar.le (env (accessors.getD feature "")) threshold =
        decide (env (accessors.getD feature "") ≤ threshold) := rfl
    simp only [Node.leafFor?, hvalue, hcompare, Statement.ofNode, valueOf?,
      thresholdOf?_thresholdLiteral hthreshold, Option.bind_eq_bind, Option.bind_some,
      decide_eq_true_eq]
    split
    · exact ihl hlow
    · exact ihh hhigh

theorem readable_of_shows {t : Arena Float} (hn : n.Shows t)
    (hentries : ∀ e ∈ t, e.isLeaf = false → e.threshold.isFinite = true)
    (hleaves : ∀ e ∈ t, e.isLeaf = true →
      e.weights.discard.isFinite = true ∧ e.weights.keep.isFinite = true)
    (hfeatures : ∀ e ∈ t, e.isLeaf = false → e.feature.toNat < accessors.length) :
    Readable accessors n := by
  induction n with
  | leaf id w =>
    obtain ⟨e, he, hleaf, rfl⟩ := hn
    exact hleaves e (Array.mem_of_getElem? he) hleaf
  | split id w feature threshold low high ihl ihh =>
    obtain ⟨⟨e, he, hleaf, -, rfl, rfl, -⟩, hlow, hhigh⟩ := hn
    have hmem := Array.mem_of_getElem? he
    exact ⟨hfeatures e hmem hleaf, hentries e hmem hleaf, ihl hlow, ihh hhigh⟩

end Trees

end ClauseTriage.Source
