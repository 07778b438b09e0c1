import ClauseTriage.Code.Header
import ClauseTriage.Proofs.Source.Statement

/-!
# Words of generated code

Names made from a valid base are words, so neither a space nor a line break is in them, and a header
over lines without breaks has no break of its own.
-/
namespace ClauseTriage.Source

open Code

section Texts

variable {s t : String}

instance (s : String) : Decidable (OneLine s) := inferInstanceAs (Decidable ('\n' ∉ s.toList))

/-- A literal is compared by its characters. -/
theorem oneLine_ofList {cs : List Char} (h : '\n' ∉ cs) : OneLine (String.ofList cs) := by
  rwa [OneLine, String.toList_ofList]

theorem oneLine_append : OneLine (s ++ t) ↔ OneLine s ∧ OneLine t := by
  rw [OneLine, String.toList_append, List.mem_append, not_or]
  rfl

theorem oneLine_literal {x : Float} (hx : x.isFinite = true) : OneLine (Decimal.literal x) :=
  notMem_of_numeric (numeric_literal hx) (by decide)

theorem oneLine_plain (x : Float) : OneLine (Decimal.plain x) := by
  apply oneLine_ofList
  by_cases hx : x.isFinite = true
  · exact notMem_of_numeric (Decimal.numeric_chars _ hx) (by decide)
  · rw [Decimal.Style.chars]
    cases hmagnitude : Decimal.magnitude x with
    | notANumber => decide
    | infinite negative => cases negative <;> decide
    | finite b => exact absurd (Double.isFinite_iff.2 ⟨b, hmagnitude⟩) hx

theorem oneLine_fixed (places : ℕ) (x : Float) : OneLine (Decimal.fixed places x) := by
  apply oneLine_ofList
  by_cases hx : x.isFinite = true
  · exact notMem_of_numeric (Decimal.numeric_fixedChars places hx) (by decide)
  · rw [Decimal.fixedChars]
    cases hmagnitude : Decimal.magnitude x with
    | notANumber => simp
    | infinite negative => cases negative <;> simp [Decimal.signOf]
    | finite b => exact absurd (Double.isFinite_iff.2 ⟨b, hmagnitude⟩) hx

/-- What a leaf returns is on one line, whatever its weights are. -/
theorem oneLine_leafLiteral (w : Weights Float) : OneLine (leafLiteral w) := by
  rw [leafLiteral]
  split
  · decide
  · simp only [oneLine_append]
    exact ⟨⟨oneLine_fixed 1 _, by decide⟩, oneLine_fixed 1 _⟩

/-- A character of an identifier. -/
def isWord (c : Char) : Bool := c.isAlphanum || c = '_'

/-- Part of an identifier. -/
def Word (s : String) : Prop := ∀ c ∈ s.toList, isWord c = true

theorem word_ofList {cs : List Char} (h : cs.all isWord = true) : Word (String.ofList cs) := by
  rw [Word, String.toList_ofList]
  exact List.all_eq_true.1 h

theorem Word.append (hs : Word s) (ht : Word t) : Word (s ++ t) := by
  rw [Word, String.toList_append]
  exact List.forall_mem_append.2 ⟨hs, ht⟩

theorem word_nat (n : Nat) : Word (Text.nat n) := by
  intro c hc
  rw [toList_nat] at hc
  simp [isWord, Char.isAlphanum, Decimal.isDigit_of_mem_digitsOf hc]

theorem word_of_isValid (h : BaseName.isValid s = true) : Word s := by
  rw [BaseName.isValid, Bool.and_eq_true] at h
  exact List.all_eq_true.1 h.2

theorem Word.notMem (h : Word s) {c : Char} (hc : isWord c = false) : c ∉ s.toList :=
  fun hmem => by simp [h c hmem] at hc

theorem Word.oneLine (h : Word s) : OneLine s := h.notMem (by decide)

theorem toUpper_ne_newline {c : Char} (h : c ≠ '\n') : c.toUpper ≠ '\n' := by
  unfold Char.toUpper
  split
  · intro heq
    have := congrArg Char.val heq
    grind
  · exact h

/-- Include guards have no line break. -/
theorem oneLine_guard {kind : String} (hkind : OneLine kind) (hs : OneLine s) :
    OneLine (BaseName.guard kind s) := by
  have hupper : OneLine (String.ofList (s.toList.map Char.toUpper)) := by
    rw [OneLine, String.toList_ofList]
    intro hmem
    obtain ⟨c, hc, heq⟩ := List.mem_map.1 hmem
    exact toUpper_ne_newline (fun hnewline => hs (hnewline ▸ hc)) heq
  rw [BaseName.guard]
  simp only [oneLine_append]
  exact ⟨⟨⟨hkind, by decide⟩, hupper⟩, by decide⟩

end Texts

section Lines

/-- Lines without a line break inside. -/
def AllOneLine (lines : List Line) : Prop := ∀ l ∈ lines, OneLine l.text

theorem allOneLine_append {ls ms : List Line} :
    AllOneLine (ls ++ ms) ↔ AllOneLine ls ∧ AllOneLine ms := List.forall_mem_append

theorem allOneLine_cons {l : Line} {ls : List Line} :
    AllOneLine (l :: ls) ↔ OneLine l.text ∧ AllOneLine ls := List.forall_mem_cons

theorem allOneLine_nil : AllOneLine [] := fun _ h => absurd h List.not_mem_nil

theorem allOneLine_map {α : Type} {f : α → Line} {xs : List α} :
    AllOneLine (xs.map f) ↔ ∀ x ∈ xs, OneLine (f x).text := List.forall_mem_map

theorem allOneLine_flatMap {α : Type} {f : α → List Line} {xs : List α} :
    AllOneLine (xs.flatMap f) ↔ ∀ x ∈ xs, AllOneLine (f x) := List.forall_mem_flatMap

/-- Every text that a host contributes. -/
def textsOf (host : Host) : List String :=
  [host.scope, host.clauseType, host.clauseVar, host.sizeAccessor, host.statsMember,
    host.paramType, host.shapeRecord, host.shapeInclude] ++
    (host.params.flatMap (fun p => [p.stat, p.ident]) ++ host.includes)

/-- The frame of a header is without line breaks when what it is made of is. -/
theorem allOneLine_header {h : Header} (hremarks : ∀ s ∈ h.remarks, OneLine s)
    (hguard : OneLine h.guard) (hincludes : ∀ s ∈ h.includes, OneLine s)
    (hsystem : ∀ s ∈ h.systemIncludes, OneLine s) (hscope : OneLine h.scope)
    (hbody : AllOneLine h.body) : AllOneLine h.lines := by
  have hbanner : ∀ s ∈ banner, OneLine s := by
    simp only [banner, List.forall_mem_cons, List.not_mem_nil, false_implies, implies_true, and_true]
    and_intros <;> exact oneLine_ofList (by decide)
  have hopen : OneLine "namespace " ∧ OneLine " \x7b" ∧ OneLine "#ifndef " ∧ OneLine "#define " ∧
      OneLine "#endif //" ∧ OneLine "\x7d //end namespace" ∧ OneLine "" ∧ OneLine "\"" ∧
      OneLine "#include \"" ∧ OneLine "#include <" ∧ OneLine ">" := by
    and_intros <;> exact oneLine_ofList (by decide)
  simp only [Header.lines, allOneLine_append, allOneLine_cons, allOneLine_map, allOneLine_nil,
    Line.flush, Line.blank, includeLine, oneLine_append, hopen, hguard, hscope, and_true, true_and]
  exact ⟨⟨⟨⟨hbanner, hremarks⟩, hincludes⟩, hsystem⟩, hbody⟩

/-- The lines of a header before its body. -/
def frontOf (h : Header) : List Line :=
  banner.map .flush ++ h.remarks.map .flush ++
    [.flush ("#ifndef " ++ h.guard), .flush ("#define " ++ h.guard), .blank] ++
    h.includes.map includeLine ++
    h.systemIncludes.map (fun file => .flush ("#include <" ++ file ++ ">")) ++
    [.blank, .flush ("namespace " ++ h.scope ++ " \x7b"), .blank]

/-- The lines of a header after its body. -/
def backOf (h : Header) : List Line :=
  [.blank, .flush "\x7d //end namespace", .blank, .flush ("#endif //" ++ h.guard)]

theorem Header.lines_eq (h : Header) : h.lines = frontOf h ++ (h.body ++ backOf h) := by
  simp only [Header.lines, frontOf, backOf, List.append_assoc]

/-- A line that is empty or begins neither with a space nor as a `static` function does. -/
def Margin (line : Raw) : Prop := ∀ c ∈ line.head?, c ≠ ' ' ∧ c ≠ 's'

instance (line : Raw) : Decidable (Margin line) :=
  match line with
  | [] => .isTrue fun _ h => nomatch h
  | c :: _ => decidable_of_iff (c ≠ ' ' ∧ c ≠ 's') ⟨fun h _ hd => Option.some.inj hd ▸ h, fun h => h c rfl⟩

theorem margin_ofList {cs : List Char} (h : Margin cs) :
    Margin (raw (.flush (String.ofList cs))) := by
  change Margin (String.ofList cs).toList
  rwa [String.toList_ofList]

/-- What follows a first character does not matter. -/
theorem margin_append {cs : List Char} (hne : cs ≠ []) (h : Margin cs) (t : String) :
    Margin (raw (.flush (String.ofList cs ++ t))) := by
  change Margin (String.ofList cs ++ t).toList
  rw [String.toList_append, String.toList_ofList, Margin, List.head?_append_of_ne_nil _ hne]
  exact h

/-- The frame of a header without remarks stands at the margin. -/
theorem margin_of_mem_frame {h : Header} (hremarks : h.remarks = []) :
    (∀ l ∈ frontOf h, Margin (raw l)) ∧ ∀ l ∈ backOf h, Margin (raw l) := by
  have hblank : Margin (raw .blank) := by decide
  have hbanner : ∀ s ∈ banner, Margin (raw (.flush s)) := by
    simp only [banner, List.forall_mem_cons, List.not_mem_nil, false_implies, implies_true, and_true]
    and_intros <;> exact margin_ofList (by decide)
  have hinclude (file : String) : Margin (raw (includeLine file)) := by
    rw [includeLine, String.append_assoc]
    exact margin_append (by decide) (by decide) _
  have hsystem (file : String) : Margin (raw (.flush ("#include <" ++ file ++ ">"))) := by
    rw [String.append_assoc]
    exact margin_append (by decide) (by decide) _
  have hopen : Margin (raw (.flush ("namespace " ++ h.scope ++ " \x7b"))) := by
    rw [String.append_assoc]
    exact margin_append (by decide) (by decide) _
  have hguard : Margin (raw (.flush ("#ifndef " ++ h.guard))) ∧
      Margin (raw (.flush ("#define " ++ h.guard))) ∧
      Margin (raw (.flush ("#endif //" ++ h.guard))) :=
    ⟨margin_append (by decide) (by decide) _, margin_append (by decide) (by decide) _,
      margin_append (by decide) (by decide) _⟩
  have hclose : Margin (raw (.flush "\x7d //end namespace")) := margin_ofList (by decide)
  simp only [frontOf, backOf, hremarks, List.map_nil, List.append_nil, List.forall_mem_append,
    List.forall_mem_cons, List.forall_mem_map, List.not_mem_nil, false_implies, implies_true,
    and_true]
  exact ⟨⟨⟨⟨⟨hbanner, hguard.1, hguard.2.1, hblank⟩, fun file _ => hinclude file⟩,
    fun file _ => hsystem file⟩, hblank, hopen, hblank⟩, hblank, hclose, hblank, hguard.2.2⟩

end Lines

end ClauseTriage.Source
