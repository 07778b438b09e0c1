import ClauseTriage.Proofs.Source.Predictor
import ClauseTriage.Proofs.Tree.Descent
import ClauseTriage.Tree.Graph

/-!
# Drawings are read back

A graph source is read line by line: a line that begins with a number declares a node, and one with
an arrow between two numbers draws an edge. Read in this way, the source of a tree declares every
position once and draws the two edges of every split, whatever stands in the labels; so the child
lists are known from it. An outline has a line for each node, in the order of the declarations.
-/
namespace ClauseTriage

open Source Decimal Text

section Lines

variable {lines : List String}

/-- Lines without an indentation are taken apart at their ends. -/
theorem linesOf_endLines (h : ∀ line ∈ lines, OneLine line) :
    linesOf (endLines lines) = lines.map String.toList := by
  have hrender : endLines lines = Code.render (lines.map .flush) := by
    rw [endLines, Code.render, List.map_map]
    congr 2
  rw [hrender, linesOf_render (List.forall_mem_map.2 h), List.map_map]
  rfl

theorem endLines_append (lines more : List String) :
    endLines (lines ++ more) = endLines lines ++ endLines more := by
  rw [endLines, List.map_append, String.join_append]
  rfl

end Lines

/-- The node that a line is the declaration of. -/
def GraphLine.declared? : GraphLine → Option ℕ
  | node id _ => some id
  | edge .. => none

/-- The edge that a line is: where it begins, where it ends, and its side. -/
def GraphLine.drawn? : GraphLine → Option (ℕ × ℕ × Bool)
  | node .. => none
  | edge source target side => some (source, target, side)

namespace Drawing

/-- The number at the front of a line, with what follows it. -/
def number? (line : Raw) : Option (ℕ × Raw) :=
  (natOf? (line.takeWhile Char.isDigit)).map (·, line.dropWhile Char.isDigit)

/-- The node that a line declares. -/
def node? (line : Raw) : Option ℕ := do
  let (id, rest) ← number? line
  let _ ← between? " [label=\"".toList "\"] ;".toList rest
  return id

/-- How the edge to a child is drawn; `true` is the side of small values. -/
def edgeStyle : Bool → String
  | true => " [labeldistance=2.5, labelangle=45, headlabel=\"True\"] ;"
  | false => " [labeldistance=2.5, labelangle=-45, headlabel=\"False\"] ;"

/-- The edge that a line draws: where it begins, where it ends, and its side. -/
def edge? (line : Raw) : Option (ℕ × ℕ × Bool) := do
  let (source, rest) ← number? line
  let (target, style) ← number? (← stripFront? " -> ".toList rest)
  let side ← [true, false].find? fun side => style = (edgeStyle side).toList
  return (source, target, side)

/-- The nodes that a source declares, in its order. -/
def nodes (text : String) : List ℕ := (linesOf text).filterMap node?

/-- The edges that a source draws, in its order. -/
def edges (text : String) : List (ℕ × ℕ × Bool) := (linesOf text).filterMap edge?

/-- Where the edge on one side of a node ends; minus one without such an edge. -/
def child (text : String) (side : Bool) (id : ℕ) : ℤ :=
  match (edges text).find? fun e => e.1 = id ∧ e.2.2 = side with
  | some (_, target, _) => target
  | none => -1

/-- The children on one side of all declared nodes, by their numbers. -/
def children (text : String) (side : Bool) : List ℤ :=
  (List.range (nodes text).length).map (child text side)

/-- The node that a line of an outline is about: the number in the brackets at its end. -/
def outlined? (line : Raw) : Option ℕ := do
  let (_, digits) ← splitLast? " [ID: ".toList (← stripBack? "]".toList line)
  natOf? digits

section Reading

theorem number?_append (id : ℕ) {rest : Raw} (h : ∀ c ∈ rest.head?, c.isDigit = false) :
    number? (digitsOf id ++ rest) = some (id, rest) := by
  obtain ⟨htake, hdrop⟩ := takeWhile_digits rest (fun _ => isDigit_of_mem_digitsOf) h
  rw [number?, htake, hdrop, ← toList_nat, natOf?_nat, Option.map_some]

theorem toList_node (id : ℕ) (label : String) : (GraphLine.node id label).text.toList =
    digitsOf id ++ (" [label=\"".toList ++ (label.toList ++ "\"] ;".toList)) := by
  simp only [GraphLine.text, String.toList_append, toList_nat, List.append_assoc]

theorem toList_edge (source target : ℕ) (side : Bool) :
    (GraphLine.edge source target side).text.toList =
      digitsOf source ++ (" -> ".toList ++ (digitsOf target ++ (edgeStyle side).toList)) := by
  have hstyle : (edgeStyle side).toList = " [labeldistance=2.5, labelangle=".toList ++
      ((if side then "45" else "-45").toList ++ (", headlabel=\"".toList ++
        ((if side then "True" else "False").toList ++ "\"] ;".toList))) := by
    cases side <;> rfl
  simp only [GraphLine.text, String.toList_append, toList_nat, List.append_assoc, hstyle]

theorem node?_text (l : GraphLine) : node? l.text.toList = l.declared? := by
  cases l with
  | node id label =>
    rw [toList_node, node?, number?_append id (by simp)]
    simp only [Option.bind_eq_bind, Option.bind_some, between?_append]
    rfl
  | edge source target side =>
    rw [toList_edge, node?, number?_append source (by simp)]
    rfl

theorem edge?_text (l : GraphLine) : edge? l.text.toList = l.drawn? := by
  cases l with
  | node id label =>
    rw [toList_node, edge?, number?_append id (by simp)]
    rfl
  | edge source target side =>
    have hhead : ∀ c ∈ (edgeStyle side).toList.head?, c.isDigit = false := by
      cases side <;> simp [edgeStyle]
    have hside : [true, false].find? (fun s => (edgeStyle side).toList = (edgeStyle s).toList) =
        some side := by
      cases side <;> rfl
    rw [toList_edge, edge?, number?_append source (by simp)]
    simp only [Option.bind_eq_bind, Option.bind_some, stripFront?_append,
      number?_append target hhead, hside]
    rfl

/-- A line of an outline is about the number at its end, whatever stands before it. -/
theorem outlined?_mark {mark : String} {closing : Raw}
    (hmark : mark.toList = closing ++ " [ID: ".toList) (front : String) (id : ℕ) :
    outlined? (front ++ mark ++ nat id ++ "]").toList = some id := by
  have hline : (front ++ mark ++ nat id ++ "]").toList =
      front.toList ++ closing ++ (" [ID: ".toList ++ digitsOf id) ++ "]".toList := by
    simp only [String.toList_append, hmark, toList_nat, List.append_assoc]
  have hdigits : '[' ∉ "ID: ".toList ++ digitsOf id := by
    rw [List.mem_append, not_or]
    exact ⟨by decide, notMem_of_numeric (numeric_digitsOf id) (by decide)⟩
  have hsplit : splitLast? " [ID: ".toList
      (front.toList ++ closing ++ (" [ID: ".toList ++ digitsOf id)) =
        some (front.toList ++ closing, digitsOf id) := splitLast?_append _ hdigits
  rw [outlined?, hline, stripBack?_append]
  simp only [Option.bind_eq_bind, Option.bind_some, hsplit]
  rw [← toList_nat, natOf?_nat]

end Reading

end Drawing

section Breaks

variable {names : List String}

theorem oneLine_featureName (h : ∀ name ∈ names, OneLine name) (feature : ℕ) :
    OneLine (featureName names feature) := by
  rw [featureName, List.getD_eq_getElem?_getD]
  cases hname : names[feature]? with
  | none => exact oneLine_ofList (by decide)
  | some name => exact h name (List.mem_of_getElem? hname)

/-- Whatever the weights of a node are, their label is on one line. -/
theorem oneLine_label (w : Weights Float) : OneLine w.label := by
  have htexts : OneLine "gini = " ∧ OneLine "\\nsamples = " ∧ OneLine "\\nvalue = [" ∧
      OneLine ", " ∧ OneLine "]\\nclass = " ∧ OneLine "keep" ∧ OneLine "discard" := by
    and_intros <;> exact oneLine_ofList (by decide)
  have hclass : OneLine (className w.heavier) := by
    rw [className]
    split
    · exact htexts.2.2.2.2.2.1
    · exact htexts.2.2.2.2.2.2
  unfold Weights.label
  simp only [oneLine_append, htexts, oneLine_fixed, oneLine_plain, hclass, and_true]

theorem GraphLine.oneLine_node {id : ℕ} {label : String} (h : OneLine label) :
    OneLine (node id label).text := by
  have htexts : OneLine " [label=\"" ∧ OneLine "\"] ;" := by
    and_intros <;> exact oneLine_ofList (by decide)
  simp only [text, oneLine_append, (word_nat id).oneLine, htexts, h, and_true]

theorem GraphLine.oneLine_edge (source target : ℕ) (side : Bool) :
    OneLine (edge source target side).text := by
  have htexts : OneLine " -> " ∧ OneLine " [labeldistance=2.5, labelangle=" ∧
      OneLine ", headlabel=\"" ∧ OneLine "\"] ;" := by
    and_intros <;> exact oneLine_ofList (by decide)
  have hside : OneLine (if side then "45" else "-45") ∧
      OneLine (if side then "True" else "False") := by
    cases side <;> and_intros <;> exact oneLine_ofList (by decide)
  simp only [text, oneLine_append, (word_nat _).oneLine, htexts, hside, and_true]

variable {t : Tree Float} {n : Node Float}

/-- The lines of a graph are without line breaks when the names of the features are. -/
theorem oneLine_graph (hn : n.Shows t.arena) (hnames : ∀ name ∈ names, OneLine name) :
    ∀ l ∈ n.graph names, OneLine l.text := by
  have htexts : OneLine " <= " ∧ OneLine "\\n" := by
    and_intros <;> exact oneLine_ofList (by decide)
  induction n with
  | leaf id w => exact List.forall_mem_singleton.2 (GraphLine.oneLine_node (oneLine_label w))
  | split id w feature threshold low high ihl ihh =>
    obtain ⟨⟨e, he, hsplit, -, -, rfl, -⟩, hlow, hhigh⟩ := hn
    have hthreshold := (Tree.split_bounds (Array.mem_of_getElem? he) hsplit).2
    have hlabel : OneLine (featureName names feature ++ " <= " ++ literal e.threshold ++ "\\n" ++
        w.label) := by
      simp only [oneLine_append, oneLine_featureName hnames, oneLine_literal hthreshold,
        oneLine_label, htexts, and_true]
    simp only [Node.graph, List.forall_mem_cons, List.forall_mem_append, List.not_mem_nil,
      false_implies, implies_true, GraphLine.oneLine_node hlabel, GraphLine.oneLine_edge, and_true,
      true_and]
    exact ⟨ihl hlow, ihh hhigh⟩

/-- The lines of an outline likewise. -/
theorem oneLine_outline (hnames : ∀ name ∈ names, OneLine name) {lead : String}
    (hlead : OneLine lead) : ∀ line ∈ n.outline names lead, OneLine line := by
  have htexts : OneLine "Leaf(discard = " ∧ OneLine ", keep = " ∧ OneLine ") [ID: " ∧ OneLine "]" ∧
      OneLine "Node(" ∧ OneLine " <= " ∧ OneLine "?) [ID: " ∧ OneLine "  |-- True: " ∧
      OneLine "  \x60-- False:" := by
    and_intros <;> exact oneLine_ofList (by decide)
  induction n generalizing lead with
  | leaf id w =>
    simp only [Node.outline, List.forall_mem_singleton, oneLine_append, hlead, oneLine_plain,
      (word_nat id).oneLine, htexts, and_true]
  | split id w feature threshold low high ihl ihh =>
    have hlow := ihl (oneLine_append.2 ⟨hlead, htexts.2.2.2.2.2.2.2.1⟩)
    have hhigh := ihh (oneLine_append.2 ⟨hlead, htexts.2.2.2.2.2.2.2.2⟩)
    simp only [Node.outline, List.forall_mem_cons, List.forall_mem_append, oneLine_append, hlead,
      oneLine_featureName hnames, oneLine_fixed, (word_nat id).oneLine, htexts, and_true, true_and]
    exact ⟨hlow, hhigh⟩

end Breaks

section Graphs

variable {names : List String}

theorem Node.declared_graph (n : Node Float) (names : List String) :
    (n.graph names).filterMap GraphLine.declared? = n.preorder.map Node.id := by
  induction n with
  | leaf id w => rfl
  | split id w f x low high ihl ihh =>
    simp only [graph, preorder, List.filterMap_cons, List.filterMap_append, List.filterMap_nil,
      GraphLine.declared?, ihl, ihh, List.map_cons, List.map_append, Node.id, List.append_nil]

theorem Node.length_graph (n : Node Float) (names : List String) :
    (n.graph names).length + 1 = 2 * n.size := by
  induction n with
  | leaf id w => rfl
  | split id w f x low high ihl ihh =>
    simp only [graph, size, List.length_cons, List.length_append, List.length_nil]
    omega

theorem Node.length_drawn_graph (n : Node Float) (names : List String) :
    ((n.graph names).filterMap GraphLine.drawn?).length + 1 = n.size := by
  induction n with
  | leaf id w => rfl
  | split id w f x low high ihl ihh =>
    simp only [graph, size, List.filterMap_cons, List.filterMap_append, List.filterMap_nil,
      GraphLine.drawn?, List.length_append, List.length_cons, List.length_nil]
    omega

/-- The edges of a position: from a split to its two children, the child of small values first. -/
def Arena.edgesAt {α : Type} (t : Arena α) (id : ℕ) : List (ℕ × ℕ × Bool) :=
  match t[id]? with
  | some e => if e.isLeaf then [] else [(id, e.left.toNat, true), (id, e.right.toNat, false)]
  | none => []

theorem Arena.edgesAt_of_isLeaf {α : Type} {t : Arena α} {id : ℕ} {e : Entry α}
    (he : t[id]? = some e) (hleaf : e.isLeaf = true) : t.edgesAt id = [] := by
  simp [edgesAt, he, hleaf]

theorem Arena.edgesAt_of_split {α : Type} {t : Arena α} {id : ℕ} {e : Entry α}
    (he : t[id]? = some e) (hsplit : e.isLeaf = false) :
    t.edgesAt id = [(id, e.left.toNat, true), (id, e.right.toNat, false)] := by
  simp [edgesAt, he, hsplit]

theorem Arena.fst_of_mem_edgesAt {α : Type} {t : Arena α} {id : ℕ} {edge : ℕ × ℕ × Bool}
    (h : edge ∈ t.edgesAt id) : edge.1 = id := by
  unfold edgesAt at h
  split at h
  · split at h
    · cases h
    · simp only [List.mem_cons, List.not_mem_nil, or_false] at h
      rcases h with rfl | rfl <;> rfl
  · cases h

/-- A tree that shows an arena draws the edges of its positions. -/
theorem Node.Shows.drawn_graph {t : Arena Float} {n : Node Float} (h : n.Shows t) :
    ((n.graph names).filterMap GraphLine.drawn?).Perm
      ((n.preorder.map Node.id).flatMap t.edgesAt) := by
  induction n with
  | leaf id w =>
    obtain ⟨e, he, hleaf, -⟩ := h
    simp [graph, preorder, Node.id, GraphLine.drawn?, Arena.edgesAt_of_isLeaf he hleaf]
  | split id w f x low high ihl ihh =>
    obtain ⟨⟨e, he, hsplit, -, -, -, hleft, hright⟩, hlow, hhigh⟩ := h
    have hid : (split id w f x low high).id = id := rfl
    simp only [graph, preorder, List.filterMap_cons, List.filterMap_append, List.filterMap_nil,
      GraphLine.drawn?, hleft, hright, List.map_cons, List.map_append, List.flatMap_cons,
      List.flatMap_append, hid, Arena.edgesAt_of_split he hsplit, List.cons_append, List.nil_append]
    -- the edges come after the branches; both are moved to the front
    refine List.perm_middle.trans (.cons _ ?_)
    rw [← List.append_assoc]
    exact (List.perm_append_singleton _ _).trans (.cons _ ((ihl hlow).append (ihh hhigh)))

/-- The lines of an outline end with the numbers of the nodes. -/
theorem Node.outlined_outline (n : Node Float) (lead : String) :
    (n.outline names lead).map (fun line => Drawing.outlined? line.toList) =
      n.preorder.map fun m => some m.id := by
  have hleaf : ") [ID: ".toList = [')'] ++ " [ID: ".toList := by decide
  have hsplit : "?) [ID: ".toList = ['?', ')'] ++ " [ID: ".toList := by decide
  induction n generalizing lead with
  | leaf id w =>
    simp only [outline, preorder, List.map_singleton, Drawing.outlined?_mark hleaf]
    rfl
  | split id w f x low high ihl ihh =>
    simp only [outline, preorder, List.map_cons, List.map_append, ihl, ihh,
      Drawing.outlined?_mark hsplit]
    rfl

/-- The lines of a graph source: two in front of the nodes and edges, and one after them. -/
theorem linesOf_dot {t : Tree Float} (hnames : ∀ name ∈ names, OneLine name) :
    linesOf (t.dot names) = ["digraph Tree \x7b".toList, "node [shape=box] ;".toList] ++
      ((t.root.graph names).map (fun l => l.text.toList) ++ ["\x7d".toList]) := by
  have hopen : endLines ["digraph Tree \x7b", "node [shape=box] ;"] =
      "digraph Tree \x7b\nnode [shape=box] ;\n" := by decide
  have hclose : endLines ["\x7d"] = "\x7d\n" := by decide
  have hdot : t.dot names = endLines (["digraph Tree \x7b", "node [shape=box] ;"] ++
      (t.root.graph names).map GraphLine.text ++ ["\x7d"]) := by
    rw [endLines_append, endLines_append, hopen, hclose]
    rfl
  rw [hdot, linesOf_endLines]
  · simp only [List.map_append, List.map_map, List.append_assoc]
    rfl
  · simp only [List.forall_mem_append, List.forall_mem_map]
    exact ⟨⟨by decide, oneLine_graph t.root_spans.2 hnames⟩, by decide⟩

/-- What is read from the lines of a graph source is read from its nodes and edges. -/
theorem filterMap_linesOf_dot {β : Type} {read : Raw → Option β} {f : GraphLine → Option β}
    {t : Tree Float} (hnames : ∀ name ∈ names, OneLine name)
    (hframe : ∀ line ∈ ["digraph Tree \x7b", "node [shape=box] ;", "\x7d"], read line.toList = none)
    (hread : ∀ l : GraphLine, read l.text.toList = f l) :
    (linesOf (t.dot names)).filterMap read = (t.root.graph names).filterMap f := by
  simp only [List.forall_mem_cons] at hframe
  obtain ⟨hopen, hbox, hclose, -⟩ := hframe
  rw [linesOf_dot hnames]
  simp only [List.filterMap_append, List.filterMap_cons, List.filterMap_nil, List.filterMap_map,
    hopen, hbox, hclose, List.nil_append, List.append_nil]
  exact List.filterMap_congr fun l _ => hread l

end Graphs

namespace Tree

variable {t : Tree Float} {names : List String}

theorem nodes_dot (hnames : ∀ name ∈ names, OneLine name) :
    Drawing.nodes (t.dot names) = t.root.preorder.map Node.id := by
  rw [Drawing.nodes, filterMap_linesOf_dot hnames (by decide) Drawing.node?_text,
    Node.declared_graph]

theorem edges_dot (hnames : ∀ name ∈ names, OneLine name) :
    Drawing.edges (t.dot names) = (t.root.graph names).filterMap GraphLine.drawn? :=
  filterMap_linesOf_dot hnames (by decide) Drawing.edge?_text

theorem edges_dot_perm (hnames : ∀ name ∈ names, OneLine name) :
    (Drawing.edges (t.dot names)).Perm ((List.range t.arena.size).flatMap t.arena.edgesAt) := by
  rw [edges_dot hnames]
  exact t.root_spans.2.drawn_graph.trans (t.ids_perm.flatMap_right _)

/-- What a drawing says of a child is what the entry says. -/
theorem child_dot (hnames : ∀ name ∈ names, OneLine name) {id : ℕ} {e : Entry Float}
    (he : t.arena[id]? = some e) (side : Bool) :
    Drawing.child (t.dot names) side id = if side then e.left else e.right := by
  have hedges : ∀ edge, edge ∈ Drawing.edges (t.dot names) ∧ edge.1 = id ↔
      edge ∈ t.arena.edgesAt id := by
    intro edge
    rw [(edges_dot_perm hnames).mem_iff, List.mem_flatMap]
    constructor
    · rintro ⟨⟨j, -, hj⟩, rfl⟩
      rwa [Arena.fst_of_mem_edgesAt hj]
    · intro h
      have hid : id < t.arena.size := (Array.getElem?_eq_some_iff.1 he).1
      exact ⟨⟨id, List.mem_range.2 hid, h⟩, Arena.fst_of_mem_edgesAt h⟩
  unfold Drawing.child
  cases hleaf : e.isLeaf with
  | true =>
    have hnone : (Drawing.edges (t.dot names)).find? (fun edge => edge.1 = id ∧ edge.2.2 = side) =
        none := by
      refine List.find?_eq_none.2 fun edge hmem htest => ?_
      have hat := (hedges edge).1 ⟨hmem, (of_decide_eq_true htest).1⟩
      rw [Arena.edgesAt_of_isLeaf he hleaf] at hat
      cases hat
    obtain ⟨hleft, hright⟩ := children_of_isLeaf (Array.mem_of_getElem? he) hleaf
    rw [hnone, hleft, hright, ite_self]
  | false =>
    have hat := Arena.edgesAt_of_split he hleaf
    have hsome : (Drawing.edges (t.dot names)).find? (fun edge => edge.1 = id ∧ edge.2.2 = side) =
        some (id, (if side then e.left else e.right).toNat, side) := by
      have hmem : (id, (if side then e.left else e.right).toNat, side) ∈ t.arena.edgesAt id := by
        cases side <;> simp [hat]
      refine find?_eq_some_of_unique ((hedges _).2 hmem).1 (by simp) fun edge hedge htest => ?_
      obtain ⟨hid, rfl⟩ := of_decide_eq_true htest
      have hedge := (hedges edge).1 ⟨hedge, hid⟩
      simp only [hat, List.mem_cons, List.not_mem_nil, or_false] at hedge
      rcases hedge with rfl | rfl <;> rfl
    obtain ⟨hleft, hright⟩ := children_of_split (Array.mem_of_getElem? he) hleaf
    rw [hsome]
    cases side
    · exact Int.toNat_of_nonneg hright
    · exact Int.toNat_of_nonneg hleft

theorem children_dot (hnames : ∀ name ∈ names, OneLine name) (side : Bool) :
    Drawing.children (t.dot names) side =
      t.arena.toList.map fun e => if side then e.left else e.right := by
  have hlength : (Drawing.nodes (t.dot names)).length = t.arena.size := by
    rw [nodes_dot hnames, t.ids_perm.length_eq, List.length_range]
  refine List.ext_getElem (by simp [Drawing.children, hlength]) fun id hid hid' => ?_
  have hbound : id < t.arena.size := by simpa using hid'
  simp only [Drawing.children, List.getElem_map, List.getElem_range, Array.getElem_toList]
  exact child_dot hnames (Array.getElem?_eq_getElem hbound) side

/-- Where the names of the features are without line breaks, the graph source of a tree declares
every position once, in preorder, and draws one edge on each side of every split to its child there,
so that it has one edge less than nodes; beside these it has three lines. The child lists are read
from it, and an outline has one line for each node, in the same order. -/
theorem dot_and_outline_read_back (t : Tree Float) (names : List String)
    (hnames : ∀ name ∈ names, OneLine name) :
    Drawing.nodes (t.dot names) = t.root.preorder.map Node.id ∧
      (Drawing.nodes (t.dot names)).Perm (List.range t.size) ∧
      (Drawing.edges (t.dot names)).Perm ((List.range t.size).flatMap t.arena.edgesAt) ∧
      (Drawing.edges (t.dot names)).length = t.size - 1 ∧
      (linesOf (t.dot names)).length = t.size + (t.size - 1) + 3 ∧
      Drawing.children (t.dot names) true = t.arena.toList.map (·.left) ∧
      Drawing.children (t.dot names) false = t.arena.toList.map (·.right) ∧
      (linesOf (t.outline names)).map Drawing.outlined? =
        (Drawing.nodes (t.dot names)).map some := by
  have hnodes := nodes_dot (t := t) hnames
  have hsize := t.size_root
  refine ⟨hnodes, hnodes ▸ t.ids_perm, edges_dot_perm hnames, ?_, ?_, children_dot hnames true,
    children_dot hnames false, ?_⟩
  · have hcount := t.root.length_drawn_graph names
    rw [edges_dot hnames]
    omega
  · have hcount := t.root.length_graph names
    rw [linesOf_dot hnames]
    simp only [List.length_append, List.length_map, List.length_cons, List.length_nil]
    omega
  · have hlines : ∀ line ∈ t.root.outline names "", OneLine line :=
      oneLine_outline hnames (oneLine_ofList (by decide))
    rw [hnodes, List.map_map, outline, linesOf_endLines hlines, List.map_map]
    exact t.root.outlined_outline ""

/-- The first branch has the last number, and the name of the feature looks like the end of a label
with an edge after it. -/
theorem dot_and_outline_read_back_numbered_backwards :
    ∃ t : Tree Float,
      Drawing.nodes (t.dot ["x\"] ; 0 -> 1"]) = [0, 2, 1] ∧
      (Drawing.edges (t.dot ["x\"] ; 0 -> 1"])).Perm [(0, 2, true), (0, 1, false)] ∧
      (linesOf (t.dot ["x\"] ; 0 -> 1"])).length = 8 ∧
      Drawing.children (t.dot ["x\"] ; 0 -> 1"]) true = [2, -1, -1] ∧
      Drawing.children (t.dot ["x\"] ; 0 -> 1"]) false = [1, -1, -1] ∧
      (linesOf (t.outline ["x\"] ; 0 -> 1"])).map Drawing.outlined? = [some 0, some 2, some 1] := by
  obtain ⟨arena, harena⟩ : ∃ arena : Arena Float, arena = .ofLists [2, -1, -1] [1, -1, -1]
    [0, -2, -2] [0.5, -2.0, -2.0] [⟨4.0, 3.0⟩, ⟨2.0, 0.0⟩, ⟨2.0, 3.0⟩] := ⟨_, rfl⟩
  have hvalid : arena.fault? = none := by
    have : arena.fault?.isNone = true := by
      rw [harena]
      decide +kernel
    simpa using this
  obtain ⟨t, ht⟩ : ∃ t : Tree Float, t = ⟨arena, hvalid⟩ := ⟨_, rfl⟩
  have hpreorder : t.root.preorder.map Node.id = [0, 2, 1] := by
    subst ht harena
    decide +kernel +revert
  have hsize : t.size = 3 := by
    subst ht harena
    decide +kernel +revert
  have hedges : (List.range 3).flatMap t.arena.edgesAt = [(0, 2, true), (0, 1, false)] := by
    subst ht harena
    decide +kernel +revert
  have hleft : t.arena.toList.map (·.left) = [2, -1, -1] := by
    subst ht harena
    decide +kernel +revert
  have hright : t.arena.toList.map (·.right) = [1, -1, -1] := by
    subst ht harena
    decide +kernel +revert
  obtain ⟨hnodes, -, hdrawn, -, hlines, htrue, hfalse, houtline⟩ :=
    dot_and_outline_read_back t ["x\"] ; 0 -> 1"]
      (List.forall_mem_singleton.2 (oneLine_ofList (by decide)))
  rw [hsize, hedges] at hdrawn
  rw [hnodes, hpreorder] at houtline
  exact ⟨t, hnodes.trans hpreorder, hdrawn, by rw [hlines, hsize], htrue.trans hleft,
    hfalse.trans hright, houtline⟩

end Tree

end ClauseTriage
