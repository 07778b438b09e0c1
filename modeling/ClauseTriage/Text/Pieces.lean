/-!
# Pieces of a text

Fronts, occurrences and replacements on lists of characters.
-/
namespace ClauseTriage.Text

/-- What follows `front` in a text that begins with it. -/
def stripFront? : List Char → List Char → Option (List Char)
  | [], s => some s
  | _ :: _, [] => none
  | c :: front, d :: s => if c = d then stripFront? front s else none

theorem stripFront?_eq_some_iff {front s rest : List Char} :
    stripFront? front s = some rest ↔ s = front ++ rest := by
  induction front generalizing s with
  | nil => simp [stripFront?]
  | cons c front ih =>
    cases s with
    | nil => simp [stripFront?]
    | cons d s =>
      by_cases h : c = d
      · simp [stripFront?, h, ih]
      · simp [stripFront?, h, Ne.symm h]

/-- The text begins with `front`. -/
def startsWith (front s : List Char) : Bool := (stripFront? front s).isSome

theorem startsWith_iff {front s : List Char} : startsWith front s = true ↔ front <+: s := by
  simp only [startsWith, Option.isSome_iff_exists, stripFront?_eq_some_iff]
  exact exists_congr fun _ => eq_comm

theorem stripFront?_eq_none_iff {front s : List Char} :
    stripFront? front s = none ↔ ¬front <+: s := by
  rw [← startsWith_iff, startsWith, Option.not_isSome_iff_eq_none]

/-- `part` stands somewhere in the text. -/
def occursIn (part : List Char) : List Char → Bool
  | [] => part.isEmpty
  | c :: s => startsWith part (c :: s) || occursIn part s

theorem occursIn_iff {part s : List Char} : occursIn part s = true ↔ part <:+: s := by
  induction s with
  | nil => simp [occursIn]
  | cons c s ih => simp [occursIn, startsWith_iff, ih, List.infix_cons_iff]

/-- The parts of a text between separators; a text without one is a single part. -/
def splitAtEach (separator : Char) : List Char → List (List Char)
  | [] => [[]]
  | c :: s =>
    if c = separator then [] :: splitAtEach separator s
    else match splitAtEach separator s with
      | [] => [[c]]
      | part :: rest => (c :: part) :: rest

/-- Replaces `old`, which has at least one character, from left to right; what is put in is not
searched again. -/
def replaceWord (c : Char) (old new : List Char) : List Char → List Char
  | [] => []
  | d :: s =>
    match _h : stripFront? (c :: old) (d :: s) with
    | some rest => new ++ replaceWord c old new rest
    | none => d :: replaceWord c old new s
termination_by s => s.length
decreasing_by
  · have := congrArg List.length (stripFront?_eq_some_iff.1 _h)
    simp at this ⊢
    omega
  · simp

/-- Puts `new` before every character and at the end. -/
def interleave (new : List Char) : List Char → List Char
  | [] => new
  | c :: s => new ++ c :: interleave new s

/-- Replaces every occurrence of `old`; the empty text occurs before each character and at the
end. -/
def replaceAll (old new s : List Char) : List Char :=
  match old with
  | [] => interleave new s
  | c :: old => replaceWord c old new s

end ClauseTriage.Text
