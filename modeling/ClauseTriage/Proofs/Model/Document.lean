import ClauseTriage.Model.Document
import ClauseTriage.Proofs.Attempts
import ClauseTriage.Proofs.Json.RoundTrip
import ClauseTriage.Proofs.Tree.Acceptance

/-!
# Model documents are read back

A document of whole numbers of 64 bits and finite doubles is taken for what it was written as: the
layout of the weights and the variant of the model are guessed right, and the lists of a tree pass
the checks that the tree passed.
-/
namespace ClauseTriage

open Json

section Lists

variable {α : Type} {item? : Value → Option α} {f : α → Value}

theorem asFloat?_ofFloat {x : Float} (hx : x.isFinite = true) :
    (Value.ofFloat x).asFloat? = some x := by
  rw [Value.ofFloat, if_pos hx]
  rfl

theorem asInt?_ofInt {n : ℤ} (hn : n < 2 ^ 63) : (Value.ofInt n).asInt? = some n := if_pos hn

theorem asList?_ofList {xs : List α} (h : ∀ x ∈ xs, item? (f x) = some x) :
    (Value.ofList f xs).asList? item? = some xs := by
  change (xs.map f).mapM item? = some xs
  rw [mapM_eq_some_iff, List.forall₂_map_left_iff, List.forall₂_same]
  exact h

theorem asList?_rows {rows : List (List Float)} (h : ∀ x ∈ rows.flatten, x.isFinite = true) :
    (Value.ofList (Value.ofList Value.ofFloat) rows).asList? (Value.asList? Value.asFloat?) =
      some rows := by
  apply asList?_ofList
  intro row hrow
  apply asList?_ofList
  exact fun x hx => asFloat?_ofFloat (h x (List.mem_flatten_of_mem hrow hx))

end Lists

namespace NodeValues

variable {values : List (List Float)}

/-- The weights in one row. -/
def floats : NodeValues → List Float
  | flat values => values.flatten
  | perOutput values => values.flatten.flatten

/-- One output around the weights of each node. -/
def wrapped (values : List (List Float)) : NodeValues := perOutput (values.map fun value => [value])

theorem ofValue?_flat (h : ∀ x ∈ (flat values).floats, x.isFinite = true) :
    ofValue? (flat values).toValue = some (flat values) := by
  rw [ofValue?, toValue, asList?_rows h]

theorem floats_wrapped (values : List (List Float)) : (wrapped values).floats = values.flatten := by
  induction values with
  | nil => rfl
  | cons value values ih => exact congrArg (value ++ ·) ih

theorem flatten?_wrapped (values : List (List Float)) : (wrapped values).flatten? = .ok values := by
  change ((values.map _).zipIdx.mapM _ : Except ModelError (List (List Float))) = _
  rw [mapM_eq_ok_iff, List.zipIdx_map, List.forall₂_map_left_iff]
  have hfst : values.zipIdx.map Prod.fst = values := List.zipIdx_map_fst 0 values
  conv => rhs; rw [← hfst]
  rw [List.forall₂_map_right_iff, List.forall₂_same]
  exact fun _ _ => rfl

/-- A list of outputs is not taken for weights; without nodes there is none, and both layouts are
the same. -/
theorem ofValue?_wrapped (h : ∀ x ∈ (wrapped values).floats, x.isFinite = true) :
    (ofValue? (wrapped values).toValue).map flatten? = some (.ok values) := by
  rw [floats_wrapped] at h
  cases values with
  | nil => rfl
  | cons value values =>
    have hflat : (wrapped (value :: values)).toValue.asList? (Value.asList? Value.asFloat?) = none :=
      rfl
    have hnested : (wrapped (value :: values)).toValue.asList?
        (Value.asList? (Value.asList? Value.asFloat?)) =
          some ((value :: values).map fun value => [value]) := by
      apply asList?_ofList
      intro outputs houtputs
      obtain ⟨weights, hweights, rfl⟩ := List.mem_map.1 houtputs
      apply asList?_rows
      intro x hx
      exact h x (List.mem_flatten_of_mem hweights (by simpa using hx))
    rw [ofValue?, hflat, hnested]
    exact congrArg some (flatten?_wrapped (value :: values))

theorem legible_toValue (v : NodeValues) (h : ∀ x ∈ v.floats, (Value.ofFloat x).Legible) :
    v.toValue.Legible := by
  have hrows {rows : List (List Float)} (h : ∀ x ∈ rows.flatten, (Value.ofFloat x).Legible) :
      (Value.ofList (Value.ofList Value.ofFloat) rows).Legible :=
    Value.legible_ofList fun row hrow => Value.legible_ofList fun x hx =>
      h x (List.mem_flatten_of_mem hrow hx)
  cases v with
  | flat values => exact hrows h
  | perOutput values =>
    apply Value.legible_ofList
    intro rows hvalues
    apply hrows
    intro x hx
    obtain ⟨row, hrow, hx⟩ := List.mem_flatten.1 hx
    exact h x (List.mem_flatten_of_mem (List.mem_flatten_of_mem hvalues hrow) hx)

theorem depth_toValue_le (v : NodeValues) : v.toValue.depth ≤ 3 := by
  have hrow (row : List Float) : (Value.ofList Value.ofFloat row).depth ≤ 1 :=
    Value.depth_ofList_le fun x _ => (Value.depth_ofFloat x).le
  have hrows (rows : List (List Float)) :
      (Value.ofList (Value.ofList Value.ofFloat) rows).depth ≤ 2 :=
    Value.depth_ofList_le fun row _ => hrow row
  cases v with
  | flat values => exact (hrows values).trans (by decide)
  | perOutput values => exact Value.depth_ofList_le fun rows _ => hrows rows

end NodeValues

namespace TreeDocument

/-- The doubles of a document. -/
def floats (d : TreeDocument) : List Float := d.threshold ++ d.value.floats

def ints (d : TreeDocument) : List ℤ := d.left ++ d.right ++ d.feature

/-- What a document can write: whole numbers of 64 bits with a sign, and finite doubles. -/
structure Storable (d : TreeDocument) : Prop where
  ints : ∀ n ∈ d.ints, -2 ^ 63 ≤ n ∧ n < 2 ^ 63
  floats : ∀ x ∈ d.floats, x.isFinite = true

/-- The doubles are read back from their texts. -/
def ReadsBack (d : TreeDocument) : Prop := ∀ x ∈ d.floats, (Number.real x).ReadsBack

variable {d : TreeDocument}

/-- Only the layout of the weights is open. -/
theorem ofValue?_toValue (h : d.Storable) :
    ofValue? d.toValue = (NodeValues.ofValue? d.value.toValue).map fun value =>
      { d with value := value } := by
  obtain ⟨left, right, feature, threshold, value⟩ := d
  have hlist {ns : List ℤ} (h : ∀ n ∈ ns, -2 ^ 63 ≤ n ∧ n < 2 ^ 63) :
      (Value.ofList Value.ofInt ns).asList? Value.asInt? = some ns :=
    asList?_ofList fun n hn => asInt?_ofInt (h n hn).2
  obtain ⟨hints, hfloats⟩ := h
  simp only [ints, List.forall_mem_append] at hints
  obtain ⟨⟨hl, hr⟩, hf⟩ := hints
  have ht := (List.forall_mem_append.1 hfloats).1
  change ofParts? _ _ _ _ _ = _
  rw [ofParts?, hlist hl, hlist hr, hlist hf,
    asList?_ofList fun x hx => asFloat?_ofFloat (ht x hx)]
  cases NodeValues.ofValue? value.toValue <;> rfl

/-- Weights without outputs are read as they are. -/
theorem ofValue?_flat (h : d.Storable) {values : List (List Float)} (hvalue : d.value = .flat values) :
    ofValue? d.toValue = some d := by
  have hfloats := h.floats
  rw [floats, List.forall_mem_append, hvalue] at hfloats
  rw [ofValue?_toValue h, hvalue, NodeValues.ofValue?_flat hfloats.2, Option.map_some, ← hvalue]

/-- A document of lists gives the tree of its lists, or the fault of its lists. -/
theorem toTree?_eq {values : List (List Float)} (h : d.value.flatten? = .ok values) :
    d.toTree? =
      (Tree.ofLists? d.left d.right d.feature d.threshold values).mapError .tree := by
  rw [toTree?, h]
  simp only [bind, Except.bind]
  cases Tree.ofLists? d.left d.right d.feature d.threshold values <;> rfl

/-- The document of a tree gives the tree. -/
theorem toTree?_ofTree (t : Tree Float) : (ofTree t).toTree? = .ok t := by
  have hstores : t.arena.Stores (ofTree t).left (ofTree t).right (ofTree t).feature
      (ofTree t).threshold (t.arena.toList.map (·.weights.toList)) := ⟨rfl, rfl, rfl, rfl, rfl⟩
  rw [toTree?_eq rfl, Tree.ofLists?_eq_ok_iff.2 hstores]
  rfl

theorem legible_toValue (h : d.Storable) (hread : d.ReadsBack) : d.toValue.Legible := by
  have hlist {ns : List ℤ} (hns : ∀ n ∈ ns, -2 ^ 63 ≤ n ∧ n < 2 ^ 63) :
      (Value.ofList Value.ofInt ns).Legible :=
    Value.legible_ofList fun n hn => Value.legible_ofInt (hns n hn).1 (hns n hn).2
  have hfloats : ∀ x ∈ d.floats, (Value.ofFloat x).Legible := fun x hx =>
    Value.legible_ofFloat (h.floats x hx) (hread x hx)
  rw [floats, List.forall_mem_append] at hfloats
  have hints := h.ints
  simp only [ints, List.forall_mem_append] at hints
  obtain ⟨⟨hl, hr⟩, hf⟩ := hints
  exact ⟨rfl, hlist hl, rfl, hlist hr, rfl, hlist hf, rfl, Value.legible_ofList hfloats.1, rfl,
    d.value.legible_toValue hfloats.2, trivial⟩

/-- An object, and in it lists of nodes, of outputs and of weights. -/
theorem depth_toValue_le (d : TreeDocument) : d.toValue.depth ≤ 4 := by
  have hlist (ns : List ℤ) : (Value.ofList Value.ofInt ns).depth ≤ 1 :=
    Value.depth_ofList_le fun _ _ => le_rfl
  have hl := hlist d.left
  have hr := hlist d.right
  have hf := hlist d.feature
  have ht : (Value.ofList Value.ofFloat d.threshold).depth ≤ 1 :=
    Value.depth_ofList_le fun x _ => (Value.depth_ofFloat x).le
  have hv := d.value.depth_toValue_le
  simp only [toValue, Value.depth, Value.depthOfFields]
  omega

end TreeDocument

namespace ModelDocument

/-- No tree is taken for an ensemble. -/
theorem ofValue?_tree (d : TreeDocument) :
    ofValue? d.toValue = (TreeDocument.ofValue? d.toValue).map .tree := rfl

theorem ofValue?_ensemble {ds : List TreeDocument}
    (h : ∀ d ∈ ds, TreeDocument.ofValue? d.toValue = some d) :
    ofValue? (ensemble ds).toValue = some (ensemble ds) := by
  have hread : (Value.ofList TreeDocument.toValue ds).asList? TreeDocument.ofValue? = some ds :=
    asList?_ofList h
  have hfield : Value.field? "estimators" [(some "estimators", Value.ofList TreeDocument.toValue ds)] =
      some (Value.ofList TreeDocument.toValue ds) := rfl
  simp [ofValue?, toValue, hfield, hread]

/-- The document of a model gives the model. -/
theorem toModel?_ofModel (m : Model) : (ofModel m).toModel? = .ok m := by
  cases m with
  | single t =>
    change (TreeDocument.ofTree t).toTree?.map Model.single = _
    rw [TreeDocument.toTree?_ofTree]
    rfl
  | ensemble e =>
    have hmembers : (e.members.map TreeDocument.ofTree).mapM TreeDocument.toTree? =
        .ok e.members := by
      rw [mapM_eq_ok_iff, List.forall₂_map_left_iff, List.forall₂_same]
      exact fun t _ => TreeDocument.toTree?_ofTree t
    change (do
      let members ← (e.members.map TreeDocument.ofTree).mapM TreeDocument.toTree?
      return .ensemble (← Ensemble.ofList? members) : Except ModelError Model) = _
    rw [hmembers]
    change (do return .ensemble (← Ensemble.ofList? e.members) : Except ModelError Model) = _
    rw [Ensemble.ofList?, dif_neg e.nonempty]
    rfl

end ModelDocument

namespace Model

/-- What a document gives as a value; none where it is no document. -/
def ofValue? (v : Value) : Option (Except ModelError Model) :=
  (ModelDocument.ofValue? v).map ModelDocument.toModel?

/-- A legible document is read from its text as it is as a value. -/
theorem ofText?_pretty (path : String) {v : Value} (hv : v.Legible)
    (hdepth : v.depth ≤ ModelDocument.depthLimit) :
    ofText? path (v.pretty 0) = (ofValue? v).getD (.error (.badDocument path)) := by
  have hparse : ModelDocument.parse? (v.pretty 0) = ModelDocument.ofValue? v := by
    rw [ModelDocument.parse?, parse?_pretty hv]
    simp [hv.isSound, hdepth]
  rw [ofText?, hparse, ofValue?]
  cases ModelDocument.ofValue? v <;> rfl

/-- The whole numbers of the nodes, one node after another. -/
def ints (m : Model) : List ℤ :=
  m.trees.flatMap fun t => t.arena.toList.flatMap fun e => [e.left, e.right, e.feature]

/-- The thresholds and the weights of the nodes, one node after another. -/
def floats (m : Model) : List Float :=
  m.trees.flatMap fun t => t.arena.toList.flatMap fun e => e.threshold :: e.weights.toList

/-- What a document can write: whole numbers of 64 bits with a sign, and finite doubles. -/
structure Storable (m : Model) : Prop where
  ints : ∀ n ∈ m.ints, -2 ^ 63 ≤ n ∧ n < 2 ^ 63
  floats : ∀ x ∈ m.floats, x.isFinite = true

/-- The thresholds and the weights are read back from their texts. -/
def ReadsBack (m : Model) : Prop := ∀ x ∈ m.floats, (Number.real x).ReadsBack

variable {m : Model} {t : Tree Float}

/-- The lists of a document hold the numbers of the nodes. -/
theorem mem_ints_of_ofTree (ht : t ∈ m.trees) : ∀ n ∈ (TreeDocument.ofTree t).ints, n ∈ m.ints := by
  intro n hn
  simp only [TreeDocument.ints, TreeDocument.ofTree, List.mem_append, List.mem_map] at hn
  apply List.mem_flatMap_of_mem ht
  rcases hn with (⟨e, he, rfl⟩ | ⟨e, he, rfl⟩) | ⟨e, he, rfl⟩ <;>
    exact List.mem_flatMap_of_mem he (by simp)

theorem mem_floats_of_ofTree (ht : t ∈ m.trees) :
    ∀ x ∈ (TreeDocument.ofTree t).floats, x ∈ m.floats := by
  intro x hx
  simp only [TreeDocument.floats, TreeDocument.ofTree, NodeValues.floats, List.mem_append,
    List.mem_map, List.mem_flatten] at hx
  apply List.mem_flatMap_of_mem ht
  rcases hx with ⟨e, he, rfl⟩ | ⟨weights, ⟨e, he, rfl⟩, hx⟩
  · exact List.mem_flatMap_of_mem he List.mem_cons_self
  · exact List.mem_flatMap_of_mem he (List.mem_cons_of_mem _ hx)

theorem Storable.ofTree (h : m.Storable) (ht : t ∈ m.trees) : (TreeDocument.ofTree t).Storable :=
  ⟨fun n hn => h.ints n (mem_ints_of_ofTree ht n hn),
    fun x hx => h.floats x (mem_floats_of_ofTree ht x hx)⟩

theorem Storable.ofValue?_ofModel (h : m.Storable) :
    ModelDocument.ofValue? (ModelDocument.ofModel m).toValue = some (.ofModel m) := by
  have hmember : ∀ t ∈ m.trees, TreeDocument.ofValue? (TreeDocument.ofTree t).toValue =
      some (.ofTree t) := fun t ht => TreeDocument.ofValue?_flat (h.ofTree ht) rfl
  cases m with
  | single t =>
    change ModelDocument.ofValue? (TreeDocument.ofTree t).toValue = _
    rw [ModelDocument.ofValue?_tree, hmember t List.mem_cons_self]
    rfl
  | ensemble e =>
    apply ModelDocument.ofValue?_ensemble
    intro d hd
    obtain ⟨t, ht, rfl⟩ := List.mem_map.1 hd
    exact hmember t ht

theorem Storable.legible (h : m.Storable) (hread : m.ReadsBack) :
    (ModelDocument.ofModel m).toValue.Legible := by
  have hmember : ∀ t ∈ m.trees, (TreeDocument.ofTree t).toValue.Legible := fun t ht =>
    TreeDocument.legible_toValue (h.ofTree ht) fun x hx => hread x (mem_floats_of_ofTree ht x hx)
  cases m with
  | single t => exact hmember t List.mem_cons_self
  | ensemble e =>
    refine ⟨rfl, Value.legible_ofList ?_, trivial⟩
    intro d hd
    obtain ⟨t, ht, rfl⟩ := List.mem_map.1 hd
    exact hmember t ht

theorem depth_toValue_le (m : Model) :
    (ModelDocument.ofModel m).toValue.depth ≤ ModelDocument.depthLimit := by
  cases m with
  | single t => exact (TreeDocument.ofTree t).depth_toValue_le.trans (by decide)
  | ensemble e =>
    have hmembers : (Value.ofList TreeDocument.toValue (e.members.map .ofTree)).depth ≤ 5 :=
      Value.depth_ofList_le fun d _ => d.depth_toValue_le
    simp only [ModelDocument.ofModel, ModelDocument.toValue, Value.depth, Value.depthOfFields,
      ModelDocument.depthLimit]
    omega

/-- A document of five lists gives the tree of the lists or their fault, once its weights are read. -/
theorem ofValue?_lists {d : TreeDocument} {values : List (List Float)} (h : d.Storable)
    (hvalues : (NodeValues.ofValue? d.value.toValue).map NodeValues.flatten? = some (.ok values)) :
    ofValue? d.toValue = some
      (((Tree.ofLists? d.left d.right d.feature d.threshold values).mapError .tree).map single) := by
  obtain ⟨read, hread, hflat⟩ := Option.map_eq_some_iff.1 hvalues
  have htree : TreeDocument.toTree? { d with value := read } =
      (Tree.ofLists? d.left d.right d.feature d.threshold values).mapError .tree :=
    TreeDocument.toTree?_eq hflat
  rw [ofValue?, ModelDocument.ofValue?_tree, TreeDocument.ofValue?_toValue h, hread]
  exact congrArg (fun x => some (x.map single)) htree

/-- A model is read back from its document, and a document of five lists is read alike with an
output around the weights of each node and without. -/
theorem document_round_trip :
    (∀ m : Model, m.Storable →
      ofValue? (ModelDocument.ofModel m).toValue = some (.ok m) ∧
      (m.ReadsBack → ∀ path, ofText? path m.document = .ok m)) ∧
    ∀ (left right feature : List ℤ) (threshold : List Float) (values : List (List Float)),
      let flat := TreeDocument.mk left right feature threshold (.flat values)
      let nested := TreeDocument.mk left right feature threshold (.wrapped values)
      let read := ((Tree.ofLists? left right feature threshold values).mapError .tree).map single
      flat.Storable →
        ofValue? flat.toValue = some read ∧ ofValue? nested.toValue = some read ∧
        (flat.ReadsBack → ∀ path, ofText? path (flat.toValue.pretty 0) = read ∧
          ofText? path (nested.toValue.pretty 0) = read) := by
  constructor
  · intro m hm
    have hvalue : ofValue? (ModelDocument.ofModel m).toValue = some (.ok m) := by
      rw [ofValue?, hm.ofValue?_ofModel]
      exact congrArg some (ModelDocument.toModel?_ofModel m)
    refine ⟨hvalue, fun hread path => ?_⟩
    rw [document, ofText?_pretty path (hm.legible hread) m.depth_toValue_le, hvalue]
    rfl
  · intro left right feature threshold values flat nested read hstorable
    have hfloats : nested.floats = flat.floats :=
      congrArg (threshold ++ ·) (NodeValues.floats_wrapped values)
    have hnested : nested.Storable := ⟨hstorable.ints, hfloats ▸ hstorable.floats⟩
    have hvalue : ofValue? flat.toValue = some read := by
      apply ofValue?_lists hstorable
      rw [NodeValues.ofValue?_flat fun x hx => hstorable.floats x (List.mem_append_right _ hx)]
      rfl
    have hvalue' : ofValue? nested.toValue = some read := by
      apply ofValue?_lists hnested
      exact NodeValues.ofValue?_wrapped fun x hx => hnested.floats x (List.mem_append_right _ hx)
    refine ⟨hvalue, hvalue', fun hread path => ?_⟩
    have hread' : nested.ReadsBack := by
      rwa [TreeDocument.ReadsBack, hfloats]
    have hdepth (d : TreeDocument) : d.toValue.depth ≤ ModelDocument.depthLimit :=
      d.depth_toValue_le.trans (by decide)
    rw [ofText?_pretty path (TreeDocument.legible_toValue hstorable hread) (hdepth flat), hvalue,
      ofText?_pretty path (TreeDocument.legible_toValue hnested hread') (hdepth nested), hvalue']
    exact ⟨rfl, rfl⟩

/-- An ensemble of one tree stays an ensemble, and a node with one child is reported in either
layout. -/
theorem document_round_trip_stump :
    ∃ (stump : Tree Float) (e : Ensemble),
      stump.arena = #[⟨1, 2, 0, 4.0, ⟨5.0, 5.0⟩⟩, .leaf ⟨5.0, 0.0⟩, .leaf ⟨0.0, 5.0⟩] ∧
      e.members = [stump] ∧ (ensemble e).Storable ∧ (ensemble e).ReadsBack ∧
      (∀ path, ofText? path (ensemble e).document = .ok (ensemble e)) ∧
      ∀ path, ofText? path ((TreeDocument.mk [1] [-1] [0] [1.0] (.flat [[1.0, 1.0]])).toValue.pretty 0) =
          .error (.tree (.halfLeaf 0)) ∧
        ofText? path ((TreeDocument.mk [1] [-1] [0] [1.0] (.perOutput [[[1.0, 1.0]]])).toValue.pretty 0) =
          .error (.tree (.halfLeaf 0)) := by
  obtain ⟨stump, hstump⟩ : ∃ stump : Tree Float, stump.arena =
      #[⟨1, 2, 0, 4.0, ⟨5.0, 5.0⟩⟩, .leaf ⟨5.0, 0.0⟩, .leaf ⟨0.0, 5.0⟩] :=
    ⟨⟨_, by decide +kernel⟩, rfl⟩
  obtain ⟨e, he⟩ : ∃ e : Ensemble, e.members = [stump] := ⟨⟨_, List.cons_ne_nil _ _⟩, rfl⟩
  have hints : (ensemble e).ints = [1, 2, 0, -1, -1, -2, -1, -1, -2] := by
    rw [ints, trees, he, List.flatMap_singleton, hstump]
    rfl
  have hfloats : (ensemble e).floats = [4.0, 5.0, 5.0, -2.0, 5.0, 0.0, -2.0, 0.0, 5.0] := by
    rw [floats, trees, he, List.flatMap_singleton, hstump]
    decide +kernel
  have hstorable : (ensemble e).Storable := by
    constructor
    · rw [hints]
      decide
    · rw [hfloats]
      decide +kernel
  have hread : (ensemble e).ReadsBack := by
    rw [ReadsBack, hfloats]
    decide +kernel
  have hlists : (TreeDocument.mk [1] [-1] [0] [1.0] (.flat [[1.0, 1.0]])).Storable :=
    ⟨by decide, by decide +kernel⟩
  have hone : (TreeDocument.mk [1] [-1] [0] [1.0] (.flat [[1.0, 1.0]])).ReadsBack := by
    unfold TreeDocument.ReadsBack
    decide +kernel
  refine ⟨stump, e, hstump, he, hstorable, hread, (document_round_trip.1 _ hstorable).2 hread, ?_⟩
  exact (document_round_trip.2 [1] [-1] [0] [1.0] [[1.0, 1.0]] hlists).2.2 hone

end Model

end ClauseTriage
