import ClauseTriage.Code.Dispatch
import ClauseTriage.Proofs.Attempts
import ClauseTriage.Proofs.Source.Words

/-!
# Reading a dispatch table

A dispatch header is read as its host includes it: what stands in quotes behind the host's own
includes, the size in the brackets of the table, and the functions that the table names, in order.
Whatever the texts of the host are, they are the same on both sides.
-/
namespace ClauseTriage.Source

open Code Text

section Items

/-- The text before the first of a character, and what follows that. -/
def cutAt? (stop : Char) : List Char → Option (List Char × List Char)
  | [] => none
  | c :: s => if c = stop then some ([], s) else (cutAt? stop s).map fun (text, rest) => (c :: text, rest)

/-- A text between a front and a character that ends its line, and what follows the line. -/
def readItem? (front : List Char) (stop : Char) (s : List Char) : Option (String × List Char) := do
  let (text, rest) ← cutAt? stop (← stripFront? front s)
  return (String.ofList text, ← stripFront? ['\n'] rest)

/-- At most so many items in a row, and what follows them. -/
def readItems (front : List Char) (stop : Char) : Nat → List Char → List String × List Char
  | 0, s => ([], s)
  | count + 1, s =>
    match readItem? front stop s with
    | none => ([], s)
    | some (item, rest) => ((readItems front stop count rest).map (item :: ·) id)

variable {front rest : List Char} {stop : Char}

/-- The line of an item. -/
def itemText (front : List Char) (stop : Char) (item : String) : List Char :=
  front ++ (item.toList ++ [stop, '\n'])

theorem cutAt?_append {text : List Char} (h : stop ∉ text) (rest : List Char) :
    cutAt? stop (text ++ stop :: rest) = some (text, rest) := by
  induction text with
  | nil => simp [cutAt?]
  | cons c text ih =>
    obtain ⟨hc, htext⟩ := List.ne_and_not_mem_of_not_mem_cons h
    simp [cutAt?, hc.symm, ih htext]

theorem readItem?_append {item : String} (h : stop ∉ item.toList) (rest : List Char) :
    readItem? front stop (itemText front stop item ++ rest) = some (item, rest) := by
  have htext : itemText front stop item ++ rest =
      front ++ (item.toList ++ stop :: (['\n'] ++ rest)) := by
    simp [itemText]
  simp [readItem?, htext, cutAt?_append h, stripFront?]

theorem readItem?_eq_none {c d : Char} (h : c ≠ d) (front : List Char) (stop : Char)
    (s : List Char) : readItem? (c :: front) stop (d :: s) = none := by
  simp [readItem?, stripFront?_cons_ne h]

/-- Items are read up to what is not one. -/
theorem readItems_append {items : List String} (hitems : ∀ item ∈ items, stop ∉ item.toList)
    (hrest : readItem? front stop rest = none) {count : Nat} (hcount : items.length ≤ count) :
    readItems front stop count (items.flatMap (itemText front stop) ++ rest) = (items, rest) := by
  induction items generalizing count with
  | nil => cases count <;> simp [readItems, hrest]
  | cons item items ih =>
    obtain ⟨hitem, hitems⟩ := List.forall_mem_cons.1 hitems
    cases count with
    | zero => simp at hcount
    | succ count =>
      rw [List.flatMap_cons, List.append_assoc, readItems, readItem?_append hitem]
      simp [ih hitems (Nat.le_of_succ_le_succ hcount)]

theorem length_le_length_flatMap (items : List String) :
    items.length ≤ (items.flatMap (itemText front stop)).length := by
  induction items with
  | nil => simp
  | cons item items ih =>
    simp [itemText] at ih ⊢
    omega

end Items

/-- What a dispatch header says. -/
structure Table where
  /-- Files that are included after the host's own. -/
  files : List String
  size : Nat
  functions : List String
  deriving DecidableEq, Repr

section Header

variable (base : String) (host : Host)

/-- The lines up to the host's own includes. -/
def tableFront : List Line :=
  banner.map .flush ++ ["///auto-generated code. Under MIT license."].map .flush ++
    [.flush ("#ifndef " ++ BaseName.dispatchGuard base),
      .flush ("#define " ++ BaseName.dispatchGuard base), .blank] ++
    host.includes.map includeLine

/-- The lines between the includes and the table. -/
def tableOpening : List Line :=
  [.blank, .flush ("namespace " ++ host.scope ++ " \x7b"), .blank,
    .flush ("typedef bool (*" ++ BaseName.dispatchType base ++ ")(" ++ signatureTypes host ++ ");"),
    .blank]

/-- The head of the table up to its size. -/
def tableHead : List Char :=
  (BaseName.dispatchType base ++ " " ++ BaseName.dispatchTable base ++ "[").toList

/-- The lines after the last function of the table. -/
def tableClosing : List Line :=
  [.flush "\x7d;", .blank, .flush "\x7d //end namespace", .blank,
    .flush ("#endif //" ++ BaseName.dispatchGuard base)]

/-- What stands before a file and before a function. -/
def fileFront : List Char := "#include \"".toList

def functionFront : List Char := indent 1 ++ (host.scope ++ "::").toList

/-- Reads a dispatch header of a base name and a host. There are no more items than characters. -/
def readTable? (text : String) : Option Table := do
  let s ← stripFront? (render (tableFront base host)).toList text.toList
  let (files, s) := readItems fileFront '"' s.length s
  let s ← stripFront? ((render (tableOpening base host)).toList ++ tableHead base) s
  let (digits, s) ← cutAt? ']' s
  let size ← natOf? digits
  let s ← stripFront? " = \x7b\n".toList s
  let (functions, s) := readItems (functionFront host) ',' s.length s
  if s = (render (tableClosing base)).toList then some ⟨files, size, functions⟩ else none

variable {base host}

theorem toList_render_append (lines more : List Line) :
    (render (lines ++ more)).toList = (render lines).toList ++ (render more).toList := by
  simp only [toList_render, List.flatMap_append]

theorem raw_includeLine (file : String) :
    raw (includeLine file) = fileFront ++ (file.toList ++ ['"']) := by
  have htext : ("#include \"" ++ file ++ "\"").toList = fileFront ++ (file.toList ++ ['"']) := by
    rw [String.toList_append, String.toList_append]
    exact List.append_assoc _ _ _
  exact (List.nil_append _).trans htext

/-- The lines of files are items. -/
theorem toList_render_includes (files : List String) :
    (render (files.map includeLine)).toList = files.flatMap (itemText fileFront '"') := by
  rw [toList_render, List.flatMap_map]
  refine List.flatMap_congr fun file _ => ?_
  rw [raw_includeLine, itemText, List.append_assoc, List.append_assoc, List.singleton_append]

/-- The line of a function in the table. -/
def functionLine (host : Host) (function : String) : Line := ⟨1, host.scope ++ "::" ++ function ++ ","⟩

/-- The lines of functions are items. -/
theorem toList_render_functions (functions : List String) :
    (render (functions.map (functionLine host))).toList =
      functions.flatMap (itemText (functionFront host) ',') := by
  rw [toList_render, List.flatMap_map]
  refine List.flatMap_congr fun function _ => ?_
  rw [raw, functionLine, String.toList_append, String.toList_append, itemText, functionFront]
  simp only [List.append_assoc]
  rfl

/-- The first line of the table. -/
def tableLine (base : String) (size : Nat) : Line :=
  .flush (BaseName.dispatchType base ++ " " ++ BaseName.dispatchTable base ++ "[" ++ Text.nat size ++
    "] = \x7b")

theorem toList_render_tableLine (size : Nat) (more : List Line) :
    (render (tableLine base size :: more)).toList = tableHead base ++
      ((Text.nat size).toList ++ ']' :: (" = \x7b\n".toList ++ (render more).toList)) := by
  rw [toList_render, toList_render, List.flatMap_cons, raw, tableLine, Line.flush,
    String.toList_append, String.toList_append, tableHead]
  simp only [indent, List.append_assoc]
  rfl

/-- The lines of a dispatch header, taken apart where they are read. -/
theorem lines_dispatch (files functions : List String) :
    ({ remarks := ["///auto-generated code. Under MIT license."]
       guard := BaseName.dispatchGuard base
       includes := host.includes ++ files
       scope := host.scope
       body := Dispatch.lines host
        ⟨BaseName.dispatchType base, BaseName.dispatchTable base, functions⟩ } : Header).lines =
      tableFront base host ++ (files.map includeLine ++ (tableOpening base host ++
        tableLine base functions.length ::
          (functions.map (functionLine host) ++ tableClosing base))) := by
  simp only [Header.lines, Dispatch.lines, tableFront, tableOpening, tableClosing, tableLine,
    List.map_append, List.append_assoc, List.cons_append, List.nil_append, List.map_nil]
  rfl

variable {files functions : List String}

/-- The text of a dispatch header, taken apart where it is read. -/
def tableText (base : String) (host : Host) (files functions : List String) : List Char :=
  (render (tableFront base host)).toList ++ (files.flatMap (itemText fileFront '"') ++
    (((render (tableOpening base host)).toList ++ tableHead base) ++
      ((Text.nat functions.length).toList ++ ']' :: (" = \x7b\n".toList ++
        (functions.flatMap (itemText (functionFront host) ',') ++
          (render (tableClosing base)).toList)))))

theorem toList_compileDispatch? {router : Artifact} {predictors : List Artifact} {a : Artifact}
    (h : compileDispatch? base router predictors host = .ok a) :
    a.text.toList = tableText base host (router.file :: predictors.map Artifact.file)
      (predictors.flatMap Artifact.entries) := by
  unfold compileDispatch? at h
  simp only [bind_eq_ok_iff, refuse_eq_ok_iff] at h
  obtain ⟨⟨⟩, -, -, ha⟩ := h
  obtain rfl := Except.ok.inj ha
  rw [Header.text, lines_dispatch, tableText]
  simp only [toList_render_append, toList_render_includes, toList_render_functions,
    toList_render_tableLine, List.append_assoc]

/-- No include follows the includes. -/
theorem readItem?_opening (rest : List Char) : readItem? fileFront '"'
    (((render (tableOpening base host)).toList ++ tableHead base) ++ rest) = none := by
  have hfront : fileFront = '#' :: "include \"".toList := by decide
  obtain ⟨s, hs⟩ : ∃ s, (render (tableOpening base host)).toList = '\n' :: s := by
    rw [toList_render]
    exact ⟨_, rfl⟩
  rw [hfront, hs]
  exact readItem?_eq_none (by decide) _ _ _

/-- No function follows the functions. -/
theorem readItem?_closing :
    readItem? (functionFront host) ',' (render (tableClosing base)).toList = none := by
  obtain ⟨s, hs⟩ : ∃ s, (render (tableClosing base)).toList = '\x7d' :: s := by
    rw [toList_render]
    exact ⟨_, rfl⟩
  rw [hs]
  exact readItem?_eq_none (by decide) _ _ _

/-- The text is read as what it was written from. -/
theorem readTable?_tableText {text : String} (hfiles : ∀ file ∈ files, '"' ∉ file.toList)
    (hfunctions : ∀ f ∈ functions, ',' ∉ f.toList)
    (htext : text.toList = tableText base host files functions) :
    readTable? base host text = some ⟨files, functions.length, functions⟩ := by
  have hdigits : ']' ∉ (Text.nat functions.length).toList := (word_nat _).notMem (by decide)
  have hcount {front : List Char} {stop : Char} (items : List String) (rest : List Char) :
      items.length ≤ (items.flatMap (itemText front stop) ++ rest).length := by
    rw [List.length_append]
    exact (length_le_length_flatMap items).trans (Nat.le_add_right _ _)
  rw [readTable?, htext, tableText, stripFront?_append]
  simp only [Option.bind_eq_bind, Option.bind_some]
  rw [readItems_append hfiles (readItem?_opening _) (hcount files _)]
  simp only [stripFront?_append, Option.bind_some, cutAt?_append hdigits, natOf?_nat]
  rw [readItems_append hfunctions readItem?_closing (hcount functions _)]
  simp only [if_true]

end Header

end ClauseTriage.Source
