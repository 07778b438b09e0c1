import ClauseTriage.Code.Line
import ClauseTriage.Text.Pieces

/-!
# Lines of a text

A generated text is taken apart as its reader does it: at line breaks, by fixed words at the two ends
of a line, and around the last of several separators.
-/
namespace ClauseTriage.Source

open Text

/-- One line of a text, its indentation included. -/
abbrev Raw := List Char

section Pieces

variable {front back rest s : List Char}

@[simp] theorem stripFront?_append (front rest : List Char) :
    stripFront? front (front ++ rest) = some rest :=
  stripFront?_eq_some_iff.2 rfl

/-- What stands before `back` in a text that ends with it. -/
def stripBack? (back s : List Char) : Option (List Char) :=
  (stripFront? back.reverse s.reverse).map List.reverse

@[simp] theorem stripBack?_append (back s : List Char) : stripBack? back (s ++ back) = some s := by
  rw [stripBack?, List.reverse_append, stripFront?_append, Option.map_some, List.reverse_reverse]

/-- What stands between two texts at the ends. -/
def between? (front back s : List Char) : Option (List Char) :=
  (stripFront? front s).bind (stripBack? back)

@[simp] theorem between?_append (front middle back : List Char) :
    between? front back (front ++ (middle ++ back)) = some middle := by
  rw [between?, stripFront?_append, Option.bind_some, stripBack?_append]

theorem stripBack?_concat_ne {c d : Char} (h : c ≠ d) (back s : List Char) :
    stripBack? (back ++ [c]) (s ++ [d]) = none := by
  rw [stripBack?, List.reverse_concat, List.reverse_concat, stripFront?, if_neg h, Option.map_none]

/-- Without the back there is no middle. -/
theorem between?_eq_none {front back s : List Char} (h : stripBack? back s = none) :
    between? front back s = none := by
  rw [Option.eq_none_iff_forall_ne_some]
  intro middle hmiddle
  obtain ⟨rest, hfront, hback⟩ := Option.bind_eq_some_iff.1 hmiddle
  obtain ⟨reversed, hreversed, rfl⟩ := Option.map_eq_some_iff.1 hback
  rw [stripFront?_eq_some_iff] at hfront hreversed
  have hrest : rest = reversed.reverse ++ back := by
    rw [← List.reverse_reverse rest, hreversed, List.reverse_append, List.reverse_reverse]
  rw [hfront, hrest, ← List.append_assoc, stripBack?_append] at h
  cases h

/-- A text that begins differently has no such front. -/
theorem stripFront?_cons_ne {c d : Char} (h : c ≠ d) (front s : List Char) :
    stripFront? (c :: front) (d :: s) = none := by
  rw [stripFront?, if_neg h]

theorem between?_cons_ne {c d : Char} (h : c ≠ d) (front back s : List Char) :
    between? (c :: front) back (d :: s) = none := by
  rw [between?, stripFront?_cons_ne h, Option.bind_none]

/-- The parts around the last place of a separator. -/
def splitLast? (separator : List Char) : List Char → Option (List Char × List Char)
  | [] => none
  | c :: s =>
    match splitLast? separator s with
    | some (before, after) => some (c :: before, after)
    | none => (stripFront? separator (c :: s)).map fun after => ([], after)

/-- The second character of a separator stands in every text that has the separator. -/
theorem splitLast?_eq_none {a b : Char} {separator : List Char} (h : b ∉ s.tail) :
    splitLast? (a :: b :: separator) s = none := by
  induction s with
  | nil => rfl
  | cons c s ih =>
    rw [List.tail_cons] at h
    have hrest : splitLast? (a :: b :: separator) s = none :=
      ih fun hb => h (List.mem_of_mem_tail hb)
    rw [splitLast?, hrest]
    cases s with
    | nil => simp [stripFront?]
    | cons d s =>
      have hne : b ≠ d := fun heq => h (heq ▸ List.mem_cons_self)
      simp [stripFront?, hne]

/-- A separator is the last one when its second character does not come again. -/
theorem splitLast?_append {a b : Char} {separator after : List Char} (before : List Char)
    (h : b ∉ separator ++ after) :
    splitLast? (a :: b :: separator) (before ++ (a :: b :: separator ++ after)) =
      some (before, after) := by
  induction before with
  | nil =>
    rw [List.nil_append, List.cons_append, List.cons_append, splitLast?]
    rw [splitLast?_eq_none (by simpa using h)]
    simp [stripFront?]
  | cons c before ih => rw [List.cons_append, splitLast?, ih]

/-- The separator ends a part that does not hold it. -/
theorem splitAtEach_append {c : Char} {part : List Char} (h : c ∉ part) (rest : List Char) :
    splitAtEach c (part ++ c :: rest) = part :: splitAtEach c rest := by
  induction part with
  | nil => simp [splitAtEach]
  | cons d part ih =>
    have hd : d ≠ c := fun heq => h (heq ▸ List.mem_cons_self)
    rw [List.cons_append, splitAtEach, if_neg hd, ih fun hc => h (List.mem_cons_of_mem _ hc)]

theorem splitAtEach_of_notMem {c : Char} {s : List Char} (h : c ∉ s) : splitAtEach c s = [s] := by
  induction s with
  | nil => rfl
  | cons d s ih =>
    have hd : d ≠ c := fun heq => h (heq ▸ List.mem_cons_self)
    rw [splitAtEach, if_neg hd, ih fun hc => h (List.mem_cons_of_mem _ hc)]

end Pieces

section Lines

open Code

/-- The indentation of a depth. -/
def indent (depth : Nat) : Raw := List.replicate (4 * depth) ' '

/-- A line as it stands in a text, without its end. -/
def raw (l : Line) : Raw := indent l.depth ++ l.text.toList

/-- The lines of a text; each has an end. -/
def linesOf (text : String) : List Raw := (splitAtEach '\n' text.toList).dropLast

/-- A text without a line break. -/
def OneLine (s : String) : Prop := '\n' ∉ s.toList

theorem toList_foldl_append (start : String) (parts : List String) :
    (parts.foldl (· ++ ·) start).toList = start.toList ++ parts.flatMap String.toList := by
  induction parts generalizing start with
  | nil => simp
  | cons part parts ih => rw [List.foldl_cons, ih, List.flatMap_cons, String.toList_append,
      List.append_assoc]

theorem toList_render (lines : List Line) :
    (render lines).toList = lines.flatMap fun l => raw l ++ ['\n'] := by
  rw [render, String.join, toList_foldl_append, List.flatMap_map, String.toList_empty,
    List.nil_append]
  congr 1
  funext l
  simp [Line.render, raw, indent]

theorem newline_notMem_raw {l : Line} (h : OneLine l.text) : '\n' ∉ raw l := by
  rw [raw, indent, List.mem_append, not_or]
  exact ⟨fun hc => by simp at hc, h⟩

/-- A rendered text is taken apart at the ends of its lines, whatever stands behind it. -/
theorem splitAtEach_render {lines : List Line} (h : ∀ l ∈ lines, OneLine l.text)
    (rest : List Char) :
    splitAtEach '\n' ((render lines).toList ++ rest) = lines.map raw ++ splitAtEach '\n' rest := by
  rw [toList_render]
  induction lines with
  | nil => rfl
  | cons l lines ih =>
    obtain ⟨hl, hlines⟩ := List.forall_mem_cons.1 h
    rw [List.flatMap_cons, List.append_assoc, List.append_assoc, List.singleton_append,
      splitAtEach_append (newline_notMem_raw hl), ih hlines, List.map_cons, List.cons_append]

/-- The lines of a rendered text are those it was rendered from. -/
theorem linesOf_render {lines : List Line} (h : ∀ l ∈ lines, OneLine l.text) :
    linesOf (render lines) = lines.map raw := by
  have hparts := splitAtEach_render h []
  rw [List.append_nil, splitAtEach] at hparts
  rw [linesOf, hparts, List.dropLast_concat]

/-- The lines before the first one of a given text, and those after it. -/
def linesTo? (last : Raw) : List Raw → Option (List Raw × List Raw)
  | [] => none
  | line :: rest =>
    if line = last then some ([], rest)
    else (linesTo? last rest).map fun (before, after) => (line :: before, after)

theorem linesTo?_append {before : List Raw} {last : Raw} (h : last ∉ before) (after : List Raw) :
    linesTo? last (before ++ last :: after) = some (before, after) := by
  induction before with
  | nil => simp [linesTo?]
  | cons line before ih =>
    have hline : line ≠ last := fun heq => h (heq ▸ List.mem_cons_self)
    rw [List.cons_append, linesTo?, if_neg hline, ih fun hl => h (List.mem_cons_of_mem _ hl)]
    rfl

end Lines

end ClauseTriage.Source
