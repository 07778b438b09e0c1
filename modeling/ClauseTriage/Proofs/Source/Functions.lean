import ClauseTriage.Code.Predictor
import ClauseTriage.Proofs.Source.Words

/-!
# The functions of a header

A line at the margin that begins with `static` opens a function: its result type and name, its
parameters one on each line, and a body up to the closing brace at the margin. All other lines of a
header are frame. The functions of a predictor are read back in the order in which they are written.
-/
namespace ClauseTriage.Source

open Code Text

/-- A function of a text. Parameters stand without their indentation, the body with it. -/
structure Function where
  result : String
  name : String
  parameters : List Raw
  body : List Raw
  deriving DecidableEq

/-- The function whose head follows the word `static`. -/
def functionAt? (head : List Char) (rest : List Raw) : Option Function :=
  match splitAtEach ' ' head with
  | [result, name] => do
    let name ← stripBack? "(".toList name
    let (parameters, rest) ← linesTo? ") \x7b".toList rest
    let parameters ← parameters.mapM (stripFront? (indent 1))
    let (body, _) ← linesTo? "\x7d".toList rest
    return ⟨String.ofList result, String.ofList name, parameters, body⟩
  | _ => none

/-- The functions of a text, in order. -/
def functionsOf? : List Raw → Option (List Function)
  | [] => some []
  | line :: rest =>
    match stripFront? "static ".toList line with
    | none => functionsOf? rest
    | some head => do return (← functionAt? head rest) :: (← functionsOf? rest)

section Functions

/-- A line that opens no function. -/
def Framing (line : Raw) : Prop := stripFront? "static ".toList line = none

instance (line : Raw) : Decidable (Framing line) :=
  inferInstanceAs (Decidable (stripFront? "static ".toList line = none))

theorem framing_cons {c : Char} (h : c ≠ 's') (line : Raw) : Framing (c :: line) :=
  stripFront?_cons_ne (Ne.symm h) _ _

theorem framing_of_margin {line : Raw} (h : Margin line) : Framing line := by
  cases line with
  | nil => rfl
  | cons c line => exact framing_cons (h c rfl).2 line

/-- A line inside a function begins with a space. -/
theorem raw_of_depth_pos {l : Line} (h : 0 < l.depth) :
    raw l = ' ' :: (List.replicate (4 * l.depth - 1) ' ' ++ l.text.toList) := by
  obtain ⟨n, hn⟩ : ∃ n, 4 * l.depth = n + 1 := ⟨4 * l.depth - 1, by omega⟩
  rw [raw, indent, hn, List.replicate_succ, List.cons_append, Nat.add_sub_cancel]

theorem framing_of_depth_pos {l : Line} (h : 0 < l.depth) : Framing (raw l) := by
  rw [raw_of_depth_pos h]
  exact framing_cons (by decide) _

theorem functionsOf?_framing {lines : List Raw} (h : ∀ l ∈ lines, Framing l) (rest : List Raw) :
    functionsOf? (lines ++ rest) = functionsOf? rest := by
  induction lines with
  | nil => rfl
  | cons line lines ih =>
    obtain ⟨hline, hlines⟩ := List.forall_mem_cons.1 h
    rw [List.cons_append, functionsOf?, show stripFront? "static ".toList line = none from hline]
    exact ih hlines

/-- A line at the margin is not among indented lines. -/
theorem margin_notMem {c : Char} (hc : c ≠ ' ') (text : List Char) {lines : List Line}
    (h : ∀ l ∈ lines, 0 < l.depth) : c :: text ∉ lines.map raw := by
  intro hmem
  obtain ⟨l, hl, heq⟩ := List.mem_map.1 hmem
  rw [raw_of_depth_pos (h l hl)] at heq
  exact hc (List.cons.inj heq).1.symm

/-- The parameters that the host's functions take. -/
def parametersOf (host : Host) : List String :=
  ("const " ++ host.clauseType ++ "* " ++ host.clauseVar) ::
    host.params.map fun p => ", const " ++ host.paramType ++ " " ++ p.ident

/-- The lines of a function at the margin. -/
theorem raw_function (result name : String) (host : Host) (body : List Line) :
    (function 0 result name host body).map raw =
      ("static ".toList ++ (result.toList ++ ' ' :: (name.toList ++ "(".toList))) ::
        ((parametersOf host).map (fun p => raw ⟨1, p⟩) ++ ") \x7b".toList ::
          (body.map raw ++ ["\x7d".toList])) := by
  simp [function, signature, parametersOf, raw, indent, Function.comp_def]

theorem stripFront?_parameters (texts : List String) :
    (texts.map fun p => raw ⟨1, p⟩).mapM (stripFront? (indent 1)) =
      some (texts.map String.toList) := by
  rw [mapM_eq_some_iff, List.forall₂_map_left_iff, List.forall₂_map_right_iff,
    List.forall₂_same]
  intro p _
  exact stripFront?_append (indent 1) p.toList

/-- A function whose body is indented is read back, whatever lines follow. -/
theorem functionsOf?_function {result name : String} (host : Host) {body : List Line}
    (hresult : ' ' ∉ result.toList) (hname : ' ' ∉ name.toList)
    (hbody : ∀ l ∈ body, 0 < l.depth) (rest : List Raw) :
    functionsOf? ((function 0 result name host body).map raw ++ rest) =
      (functionsOf? rest).map fun fs =>
        ⟨result, name, (parametersOf host).map String.toList, body.map raw⟩ :: fs := by
  have hhead : splitAtEach ' ' (result.toList ++ ' ' :: (name.toList ++ "(".toList)) =
      [result.toList, name.toList ++ "(".toList] := by
    rw [splitAtEach_append hresult, splitAtEach_of_notMem]
    simpa using hname
  have hparameters : ∀ l ∈ (parametersOf host).map (Line.mk 1), 0 < l.depth := by
    intro l hl
    obtain ⟨p, -, rfl⟩ := List.mem_map.1 hl
    exact Nat.one_pos
  have hrest : functionsOf? ((parametersOf host).map (fun p => raw ⟨1, p⟩) ++ ") \x7b".toList ::
      (body.map raw ++ "\x7d".toList :: rest)) = functionsOf? rest := by
    rw [functionsOf?_framing, ← List.singleton_append, functionsOf?_framing,
      functionsOf?_framing, ← List.singleton_append, functionsOf?_framing]
    · intro l hl
      exact List.mem_singleton.1 hl ▸ framing_cons (by decide) _
    · intro line hline
      obtain ⟨l, hl, rfl⟩ := List.mem_map.1 hline
      exact framing_of_depth_pos (hbody l hl)
    · intro l hl
      exact List.mem_singleton.1 hl ▸ framing_cons (by decide) _
    · intro line hline
      obtain ⟨p, -, rfl⟩ := List.mem_map.1 hline
      exact framing_of_depth_pos (l := ⟨1, p⟩) Nat.one_pos
  have hclose : linesTo? ") \x7b".toList ((parametersOf host).map (fun p => raw ⟨1, p⟩) ++
      ") \x7b".toList :: (body.map raw ++ "\x7d".toList :: rest)) =
        some ((parametersOf host).map (fun p => raw ⟨1, p⟩), body.map raw ++ "\x7d".toList :: rest) := by
    have hmargin := margin_notMem (by decide : ')' ≠ ' ') [' ', '\x7b'] hparameters
    rw [List.map_map] at hmargin
    exact linesTo?_append hmargin _
  have hend : linesTo? "\x7d".toList (body.map raw ++ "\x7d".toList :: rest) =
      some (body.map raw, rest) :=
    linesTo?_append (margin_notMem (by decide : '\x7d' ≠ ' ') [] hbody) rest
  rw [raw_function]
  simp only [List.cons_append, List.append_assoc, List.nil_append]
  rw [functionsOf?, stripFront?_append]
  dsimp only
  rw [hrest, functionAt?, hhead]
  simp only [stripBack?_append, hclose, stripFront?_parameters, hend, Option.bind_eq_bind,
    Option.bind_some, String.ofList_toList, Option.pure_def]
  cases functionsOf? rest <;> rfl

end Functions

end ClauseTriage.Source
