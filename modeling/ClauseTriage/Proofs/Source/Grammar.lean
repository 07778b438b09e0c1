import ClauseTriage.Proofs.Source.Predictor
import ClauseTriage.Proofs.Tree.Path

/-!
# The grammar of bodies

A statement is a `return`, or a conditional with a statement one level deeper in each branch. The
body of a tree is a text of this grammar, it begins with no other statement, and its statement is the
tree, unfolded from the root.
-/
namespace ClauseTriage.Source

open Accessor Code Decimal Text

section Derivations

/-- A statement at a depth, and its text. What is returned and what is compared may be any text on
one line; it is compared with a decimal. -/
inductive Derives : ℕ → Statement → List Char → Prop where
  | result {depth : ℕ} {literal : String} (hliteral : OneLine literal) :
    Derives depth (.result literal)
      (indent depth ++ "return ".toList ++ literal.toList ++ ";\n".toList)
  | branch {depth : ℕ} {accessor threshold : String} {low high : Statement}
      {decimal lowText highText : List Char} (haccessor : OneLine accessor)
      (hdecimal : Numeric decimal) (hthreshold : threshold.toList = decimal ++ ['f'])
      (hlow : Derives (depth + 1) low lowText) (hhigh : Derives (depth + 1) high highText) :
    Derives depth (.branch accessor threshold low high)
      (indent depth ++ "if ( ".toList ++ accessor.toList ++ " <= ".toList ++ threshold.toList ++
        " ) \x7b\n".toList ++ lowText ++ indent depth ++ "\x7d else \x7b\n".toList ++ highText ++
        indent depth ++ "\x7d\n".toList)

variable {depth : ℕ} {s s' : Statement} {text text' rest rest' : List Char}

theorem toList_render_result (depth : ℕ) (literal : String) :
    (render ((Statement.result literal).lines depth)).toList =
      indent depth ++ "return ".toList ++ literal.toList ++ ";\n".toList := by
  simp [Statement.lines, toList_render, raw]

theorem toList_render_branch (depth : ℕ) (accessor threshold : String) (low high : Statement) :
    (render ((Statement.branch accessor threshold low high).lines depth)).toList =
      indent depth ++ "if ( ".toList ++ accessor.toList ++ " <= ".toList ++ threshold.toList ++
        " ) \x7b\n".toList ++ (render (low.lines (depth + 1))).toList ++ indent depth ++
        "\x7d else \x7b\n".toList ++ (render (high.lines (depth + 1))).toList ++ indent depth ++
        "\x7d\n".toList := by
  simp [Statement.lines, toList_render, raw]

/-- A derived text is made of the lines of its statement. -/
theorem Derives.lines (h : Derives depth s text) :
    Plain s ∧ AllOneLine (s.lines depth) ∧ text = (render (s.lines depth)).toList := by
  have htexts : OneLine "return " ∧ OneLine ";" ∧ OneLine "if ( " ∧ OneLine " <= " ∧
      OneLine " ) \x7b" ∧ OneLine "\x7d else \x7b" ∧ OneLine "\x7d" := by
    and_intros <;> exact oneLine_ofList (by decide)
  induction h with
  | result hliteral =>
    refine ⟨trivial, ?_, (toList_render_result _ _).symm⟩
    simp only [Statement.lines, allOneLine_cons, allOneLine_nil, oneLine_append, htexts, hliteral,
      and_true]
  | @branch depth accessor threshold low high decimal lowText highText haccessor hdecimal hthreshold
      hlow hhigh ihl ihh =>
    obtain ⟨hlowPlain, hlowLines, rfl⟩ := ihl
    obtain ⟨hhighPlain, hhighLines, rfl⟩ := ihh
    have hnotMem {c : Char} (hc : isNumeric c = false) (hf : c ≠ 'f') :
        c ∉ decimal ++ ['f'] := by
      simpa using ⟨notMem_of_numeric hdecimal hc, hf⟩
    rw [← hthreshold] at hnotMem
    have hline : OneLine threshold := hnotMem (by decide) (by decide)
    refine ⟨⟨hnotMem (by decide) (by decide), hlowPlain, hhighPlain⟩, ?_,
      (toList_render_branch _ _ _ _ _).symm⟩
    simp only [Statement.lines, allOneLine_cons, allOneLine_append, allOneLine_nil, oneLine_append,
      htexts, haccessor, hline, hlowLines, hhighLines, and_true]

/-- A derived text is read back, whatever text follows it. -/
theorem Derives.read (h : Derives depth s text) (rest : List Char) {fuel : ℕ}
    (hfuel : (s.lines depth).length ≤ fuel) :
    readStatement? fuel depth (splitAtEach '\n' (text ++ rest)) =
      some (s, splitAtEach '\n' rest) := by
  obtain ⟨hplain, hlines, rfl⟩ := h.lines
  rw [splitAtEach_render hlines, readStatement?_lines hplain depth fuel _ hfuel]

/-- A text begins with the text of one statement at most. -/
theorem Derives.unique (h : Derives depth s text) (h' : Derives depth s' text')
    (heq : text ++ rest = text' ++ rest') : s = s' ∧ rest = rest' := by
  have hread := h.read rest (Nat.le_add_right _ (s'.lines depth).length)
  rw [heq, h'.read rest' (Nat.le_add_left _ _), Option.some.injEq, Prod.mk.injEq] at hread
  obtain ⟨rfl, -⟩ := hread
  rw [h.lines.2.2, h'.lines.2.2] at heq
  exact ⟨rfl, List.append_cancel_left heq⟩

end Derivations

section Trees

/-- What the entry at a position says, and those below it. A split stands for a conditional on the
accessor of its feature's name, with the branch of small values first. -/
inductive Says (t : Arena Float) (names : List String) (resolver : Resolver) :
    ℕ → Statement → Prop where
  | result {id : ℕ} {e : Entry Float} (he : t[id]? = some e) (hleaf : e.isLeaf = true) :
    Says t names resolver id (.result (leafLiteral e.weights))
  | branch {id : ℕ} {e : Entry Float} {name : String} {low high : Statement}
      (he : t[id]? = some e) (hsplit : e.isLeaf = false)
      (hname : names[e.feature.toNat]? = some name)
      (hlow : Says t names resolver e.left.toNat low)
      (hhigh : Says t names resolver e.right.toNat high) :
    Says t names resolver id
      (.branch (resolver.resolve name) (thresholdLiteral e.threshold) low high)

/-- Number of `return` statements. -/
def returns : Statement → ℕ
  | .result _ => 1
  | .branch _ _ low high => returns low + returns high

/-- Number of conditionals. -/
def conditionals : Statement → ℕ
  | .result _ => 0
  | .branch _ _ low high => 1 + conditionals low + conditionals high

variable {t : Arena Float} {names : List String} {resolver : Resolver} {n : Node Float}

theorem returns_ofNode (accessors : List String) (n : Node Float) :
    returns (Statement.ofNode accessors n) = n.leafCount := by
  induction n with
  | leaf id w => rfl
  | split id w f x low high ihl ihh => rw [Statement.ofNode, returns, ihl, ihh, Node.leafCount]

theorem conditionals_ofNode (accessors : List String) (n : Node Float) :
    conditionals (Statement.ofNode accessors n) + n.leafCount = n.size := by
  induction n with
  | leaf id w => rfl
  | split id w f x low high ihl ihh =>
    rw [Statement.ofNode, conditionals, Node.leafCount, Node.size]
    omega

theorem says_ofNode (hn : n.Shows t)
    (hfeatures : ∀ e ∈ t, e.isLeaf = false → e.feature.toNat < names.length) :
    Says t names resolver n.id (Statement.ofNode (resolver.resolveAll names) n) := by
  induction n with
  | leaf id w =>
    obtain ⟨e, he, hleaf, rfl⟩ := hn
    exact .result he hleaf
  | split id w feature threshold low high ihl ihh =>
    obtain ⟨⟨e, he, hsplit, rfl, rfl, rfl, hlowId, hhighId⟩, hlow, hhigh⟩ := hn
    have hfeature := hfeatures e (Array.mem_of_getElem? he) hsplit
    have hname : names[e.feature.toNat]? = some names[e.feature.toNat] :=
      List.getElem?_eq_getElem hfeature
    have haccessor : (resolver.resolveAll names).getD e.feature.toNat "" =
        resolver.resolve names[e.feature.toNat] := by
      simp [Resolver.resolveAll, hname]
    rw [Statement.ofNode, haccessor]
    exact .branch he hsplit hname (hlowId ▸ ihl hlow) (hhighId ▸ ihh hhigh)

/-- The lines of a tree with finite thresholds and accessors on one line are a derived text. -/
theorem derives_ofNode {accessors : List String} (hn : n.Shows t)
    (hthresholds : ∀ e ∈ t, e.isLeaf = false → e.threshold.isFinite = true)
    (haccessors : ∀ a ∈ accessors, OneLine a) (depth : ℕ) :
    Derives depth (Statement.ofNode accessors n)
      (render ((Statement.ofNode accessors n).lines depth)).toList := by
  induction n generalizing depth with
  | leaf id w =>
    rw [Statement.ofNode, toList_render_result]
    exact .result (oneLine_leafLiteral w)
  | split id w feature threshold low high ihl ihh =>
    obtain ⟨⟨e, he, hsplit, rfl, rfl, rfl, -⟩, hlow, hhigh⟩ := hn
    have hfinite := hthresholds e (Array.mem_of_getElem? he) hsplit
    have haccessor : OneLine (accessors.getD e.feature.toNat "") := by
      rw [List.getD_eq_getElem?_getD]
      cases haccessor : accessors[e.feature.toNat]? with
      | none => decide
      | some a => exact haccessors a (List.mem_of_getElem? haccessor)
    rw [Statement.ofNode, toList_render_branch]
    exact .branch haccessor (numeric_literal hfinite) (by simp [thresholdLiteral])
      (ihl hlow (depth + 1)) (ihh hhigh (depth + 1))

end Trees

section Bodies

variable {t : Tree Float} {names : List String} {resolver : Resolver}

/-- A body is refused exactly when a split tests a feature without a name. -/
theorem body?_eq_error_iff {depth : ℕ} : (∃ error, body? t names resolver depth = .error error) ↔
    ∃ e ∈ t.arena, e.isLeaf = false ∧ (names.length : ℤ) ≤ e.feature := by
  have hcheck : (∃ error, body? t names resolver depth = .error error) ↔
      ¬checkFeatures t names = .ok () := by
    rw [body?, statement?]
    cases checkFeatures t names with
    | error error => exact iff_of_true ⟨error, rfl⟩ fun h => by cases h
    | ok passed =>
      refine iff_of_false ?_ fun h => h rfl
      rintro ⟨error, h⟩
      cases h
  rw [hcheck, checkFeatures_eq_ok_iff]
  simp only [not_forall, not_lt, exists_prop]
  constructor
  · rintro ⟨f, hf, hle⟩
    obtain ⟨e, he, hsplit, rfl⟩ := Tree.mem_features_iff.1 hf
    have := (Tree.split_bounds he hsplit).1
    exact ⟨e, he, hsplit, by omega⟩
  · rintro ⟨e, he, hsplit, hle⟩
    exact ⟨e.feature.toNat, Tree.mem_features he hsplit, by omega⟩

/-- The body of a tree is refused exactly when a split tests a feature without a name. Else, with
accessors on one line, it is a text of the grammar at its depth, and it begins with no other text of
the grammar: so it is read as one statement with nothing left over. That statement says what the tree
says, unfolded from its root, and has a `return` for every leaf and a conditional for every other
node. -/
theorem body?_uniquely_decodable (t : Tree Float) (names : List String) (resolver : Resolver)
    (depth : ℕ) :
    ((∃ error, body? t names resolver depth = .error error) ↔
      ∃ e ∈ t.arena, e.isLeaf = false ∧ (names.length : ℤ) ≤ e.feature) ∧
    ((∀ e ∈ t.arena, e.isLeaf = false → e.feature < names.length) →
      (∀ name ∈ names, OneLine (resolver.resolve name)) →
      ∃ text s, body? t names resolver depth = .ok text ∧ Derives depth s text.toList ∧
        Says t.arena names resolver 0 s ∧
        returns s = t.leafCount ∧ conditionals s = t.size - t.leafCount ∧
        ∀ s' front rest, text.toList = front ++ rest → Derives depth s' front →
          s' = s ∧ rest = []) := by
  refine ⟨body?_eq_error_iff, fun hcovers hone => ?_⟩
  have hfeatures : ∀ e ∈ t.arena, e.isLeaf = false → e.feature.toNat < names.length := by
    intro e he hsplit
    have := hcovers e he hsplit
    have := (Tree.split_bounds he hsplit).1
    omega
  have hthresholds : ∀ e ∈ t.arena, e.isLeaf = false → e.threshold.isFinite = true :=
    fun e he hsplit => (Tree.split_bounds he hsplit).2
  have haccessors : ∀ a ∈ resolver.resolveAll names, OneLine a := List.forall_mem_map.2 hone
  have hbody : body? t names resolver depth =
      .ok (render ((Statement.ofNode (resolver.resolveAll names) t.root).lines depth)) := by
    rw [body?, statement?_eq_ok]
    · rfl
    · intro f hf
      obtain ⟨e, he, hsplit, rfl⟩ := Tree.mem_features_iff.1 hf
      exact hfeatures e he hsplit
  have hderives := derives_ofNode t.root_spans.2 hthresholds haccessors depth
  have hsays : Says t.arena names resolver t.root.id _ := says_ofNode t.root_spans.2 hfeatures
  have hsize := conditionals_ofNode (resolver.resolveAll names) t.root
  rw [Tree.leafCount_root, Tree.size_root] at hsize
  refine ⟨_, _, hbody, hderives, t.id_root ▸ hsays, ?_, by omega, ?_⟩
  · rw [returns_ofNode, Tree.leafCount_root]
  · intro s' front rest htext hfront
    rw [← List.append_nil (render _).toList] at htext
    obtain ⟨rfl, rfl⟩ := hderives.unique hfront htext
    exact ⟨rfl, rfl⟩

/-- One split on a name that looks like a comparison and the end of a branch. -/
theorem body?_uniquely_decodable_braces :
    ∃ (t : Tree Float) (text : String) (s : Statement),
      body? t ["a <= 1.0f ) \x7b \x7d else"] ⟨[], .member⟩ 1 = .ok text ∧
      Derives 1 s text.toList ∧ returns s = 2 ∧ conditionals s = 1 := by
  obtain ⟨arena, harena⟩ : ∃ arena : Arena Float, arena = .ofLists [1, -1, -1] [2, -1, -1]
    [0, -2, -2] [0.5, -2.0, -2.0] [⟨5.0, 3.0⟩, ⟨1.0, 3.0⟩, ⟨4.0, 0.0⟩] := ⟨_, rfl⟩
  have hvalid : arena.fault? = none := by
    have : arena.fault?.isNone = true := by
      rw [harena]
      decide +kernel
    simpa using this
  have hcovers : ∀ e ∈ arena, e.isLeaf = false → e.feature < (1 : ℕ) := by
    rw [harena]
    decide +kernel
  have hleaves : (⟨arena, hvalid⟩ : Tree Float).leafCount = 2 := by
    subst harena
    decide +kernel +revert
  have hnodes : (⟨arena, hvalid⟩ : Tree Float).size = 3 := by
    subst harena
    decide +kernel +revert
  obtain ⟨-, hdecodable⟩ := body?_uniquely_decodable ⟨arena, hvalid⟩
    ["a <= 1.0f ) \x7b \x7d else"] ⟨[], .member⟩ 1
  obtain ⟨text, s, htext, hderives, -, hreturns, hconditionals, -⟩ :=
    hdecodable hcovers (by decide +kernel)
  rw [hleaves] at hreturns hconditionals
  rw [hnodes] at hconditionals
  exact ⟨_, text, s, htext, hderives, hreturns, hconditionals⟩

end Bodies

end ClauseTriage.Source
