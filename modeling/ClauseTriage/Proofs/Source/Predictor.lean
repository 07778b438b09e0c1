import ClauseTriage.Proofs.Source.Tally

/-!
# Generated predictors decide as their models

The header of a predictor is read back to one function for each member and the tally. Run on any
values of the accessors, not-a-numbers and infinities among them, the tally returns the decision that
the model itself makes on the row of those values.
-/
namespace ClauseTriage.Source

open Accessor Code

section Frame

variable {host : Host} {accessors : List String}

theorem le_depth_of_mem_lines {s : Statement} {depth : Nat} {l : Line} (h : l ∈ s.lines depth) :
    depth ≤ l.depth := by
  induction s generalizing depth with
  | result literal => simp_all [Statement.lines]
  | branch accessor threshold low high ihl ihh =>
    simp only [Statement.lines, List.mem_cons, List.mem_append, List.not_mem_nil, or_false] at h
    rcases h with rfl | h | rfl | h | rfl
    · exact Nat.le_refl _
    · exact Nat.le_of_succ_le (ihl h)
    · exact Nat.le_refl _
    · exact Nat.le_of_succ_le (ihh h)
    · exact Nat.le_refl _

/-- The body of a tree breaks lines only between its statements. -/
theorem allOneLine_ofNode {n : Node Float} (hn : Readable accessors n)
    (haccessors : ∀ a ∈ accessors, OneLine a) (depth : Nat) :
    AllOneLine ((Statement.ofNode accessors n).lines depth) := by
  have htexts : OneLine "return " ∧ OneLine ";" ∧ OneLine "if ( " ∧ OneLine " <= " ∧
      OneLine " ) \x7b" ∧ OneLine "\x7d else \x7b" ∧ OneLine "\x7d" ∧ OneLine "f" := by
    and_intros <;> exact oneLine_ofList (by decide)
  induction n generalizing depth with
  | leaf id w =>
    simp only [Statement.ofNode, Statement.lines, allOneLine_cons, allOneLine_nil, oneLine_append,
      htexts, oneLine_leafLiteral w, and_true]
  | split id w feature threshold low high ihl ihh =>
    obtain ⟨hfeature, hthreshold, hlow, hhigh⟩ := hn
    have haccessor : OneLine (accessors.getD feature "") := by
      simpa [hfeature] using haccessors _ (List.getElem_mem hfeature)
    simp only [Statement.ofNode, Statement.lines, thresholdLiteral, allOneLine_cons,
      allOneLine_append, allOneLine_nil, oneLine_append, htexts, haccessor,
      oneLine_literal hthreshold, ihl hlow, ihh hhigh, and_true]

/-- A function has no other line breaks than its body and its name. -/
theorem allOneLine_function {result name : String} {body : List Line}
    (hhost : ∀ s ∈ textsOf host, OneLine s) (hresult : OneLine result) (hname : OneLine name)
    (hbody : AllOneLine body) : AllOneLine (function 0 result name host body) := by
  have htexts : OneLine "static " ∧ OneLine " " ∧ OneLine "(" ∧ OneLine "const " ∧ OneLine "* " ∧
      OneLine ", const " ∧ OneLine ") \x7b" ∧ OneLine "\x7d" := by
    and_intros <;> exact oneLine_ofList (by decide)
  simp only [textsOf, List.forall_mem_append, List.forall_mem_cons, List.forall_mem_flatMap] at hhost
  obtain ⟨⟨-, htype, hvar, -, -, hparam, -⟩, hparams, -⟩ := hhost
  simp only [function, signature, allOneLine_append, allOneLine_cons, allOneLine_nil,
    allOneLine_map, oneLine_append, htexts, hresult, hname, hbody, htype, hvar, hparam, true_and,
    and_true]
  intro p hp
  exact (hparams p hp).2.1

theorem allOneLine_tallyBody {p : Predictor} (hhost : ∀ s ∈ textsOf host, OneLine s)
    (hname : Word p.function) : AllOneLine (tallyBody host p) := by
  have htexts : OneLine "int votes = 0;" ∧ OneLine "votes += " ∧ OneLine "(" ∧ OneLine ", " ∧
      OneLine ") < 1.0;" ∧ OneLine "return votes >= " ∧ OneLine ";" ∧ OneLine "estimator_" ∧
      OneLine "_" := by
    and_intros <;> exact oneLine_ofList (by decide)
  simp only [textsOf, List.forall_mem_append, List.forall_mem_cons, List.forall_mem_flatMap] at hhost
  obtain ⟨⟨-, -, hvar, -⟩, hparams, -⟩ := hhost
  simp only [tallyBody, Predictor.voteLines, callArguments, BaseName.estimator, allOneLine_append,
    allOneLine_cons, allOneLine_nil, allOneLine_map, allOneLine_flatMap, oneLine_append, htexts,
    hvar, hname.oneLine, (word_nat _).oneLine, true_and, and_true]
  intro _ _ p hp
  exact (hparams p hp).2.1

end Frame

section Header

variable (host : Host) (p : Predictor)

/-- The function of a member. -/
def memberFunction (entry : Statement × Nat) : Function :=
  ⟨"double", BaseName.estimator p.function entry.2, (parametersOf host).map String.toList,
    (entry.1.lines 1).map raw⟩

def tallyFunction : Function :=
  ⟨"bool", p.function, (parametersOf host).map String.toList, (tallyBody host p).map raw⟩

/-- The functions of a predictor: its members in order and the tally. -/
def predictorFunctions : List Function :=
  p.members.zipIdx.map (memberFunction host p) ++ [tallyFunction host p]

variable {p}

theorem predictorFunctions_names :
    (predictorFunctions host p).map (fun f => (f.result, f.name)) =
      (List.range p.members.length).map (fun i => ("double", BaseName.estimator p.function i)) ++
        [("bool", p.function)] := by
  rw [predictorFunctions, List.map_append, List.map_map, List.range_eq_range',
    ← List.zipIdx_map_snd 0, List.map_map]
  rfl

theorem word_estimator (hname : Word p.function) (index : Nat) :
    Word (BaseName.estimator p.function index) := by
  unfold BaseName.estimator
  have hfront : Word "estimator_" := word_ofList (by decide)
  have hbar : Word "_" := word_ofList (by decide)
  exact ((hfront.append hname).append hbar).append (word_nat _)

/-- The functions of a predictor break lines only between their lines. -/
theorem allOneLine_lines (hhost : ∀ s ∈ textsOf host, OneLine s) (hname : Word p.function)
    (hmembers : ∀ s ∈ p.members, AllOneLine (s.lines 1)) : AllOneLine (p.lines host) := by
  rw [Predictor.lines, allOneLine_append, allOneLine_flatMap]
  constructor
  · intro entry hentry
    change AllOneLine (Predictor.memberLines host p.function entry.2 entry.1)
    rw [Predictor.memberLines, allOneLine_append, allOneLine_cons]
    exact ⟨allOneLine_function hhost (oneLine_ofList (by decide)) (word_estimator hname _).oneLine
      (hmembers _ (List.fst_mem_of_mem_zipIdx hentry)), oneLine_ofList (by decide), allOneLine_nil⟩
  · exact allOneLine_function hhost (oneLine_ofList (by decide)) hname.oneLine
      (allOneLine_tallyBody hhost hname)

/-- Members are read one after the other. -/
theorem functionsOf?_members (hname : Word p.function) (entries : List (Statement × Nat))
    (rest : List Raw) :
    functionsOf? ((entries.flatMap fun e => Predictor.memberLines host p.function e.2 e.1).map raw ++
      rest) = (functionsOf? rest).map fun fs => entries.map (memberFunction host p) ++ fs := by
  induction entries with
  | nil => cases h : functionsOf? rest <;> simp [h]
  | cons entry entries ih =>
    have hbody : ∀ l ∈ entry.1.lines (0 + 1), 0 < l.depth := fun l hl => le_depth_of_mem_lines hl
    have hblank : ∀ line ∈ [raw Line.blank], Framing line := by decide
    rw [List.flatMap_cons, Predictor.memberLines, estimatorLines]
    simp only [List.map_append, List.append_assoc, List.map_singleton]
    rw [functionsOf?_function host (by decide) ((word_estimator hname _).notMem (by decide)) hbody,
      functionsOf?_framing hblank, ih, Option.map_map]
    rfl

theorem depth_pos_of_mem_tallyBody (host : Host) (p : Predictor) :
    ∀ l ∈ tallyBody host p, 0 < l.depth := by
  intro l hl
  simp only [tallyBody, Predictor.voteLines, callArguments, List.mem_cons, List.mem_append,
    List.mem_flatMap, List.mem_map, List.not_mem_nil, or_false] at hl
  rcases hl with rfl | ⟨_, _, rfl | (rfl | ⟨_, _, rfl⟩) | rfl⟩ | rfl <;> exact Nat.succ_pos _

theorem functionsOf?_lines (hname : Word p.function) (rest : List Raw) :
    functionsOf? ((p.lines host).map raw ++ rest) =
      (functionsOf? rest).map fun fs => predictorFunctions host p ++ fs := by
  have htally : p.tallyLines host = function 0 "bool" p.function host (tallyBody host p) := rfl
  rw [Predictor.lines, List.map_append, List.append_assoc, functionsOf?_members host hname, htally,
    functionsOf?_function host (by decide) (hname.notMem (by decide))
      (depth_pos_of_mem_tallyBody host p), Option.map_map]
  cases functionsOf? rest <;> simp [predictorFunctions, tallyFunction]

/-- The functions of a header are those of its predictor. -/
theorem functionsOf?_header (hname : Word p.function) :
    functionsOf? ((p.header host).lines.map raw) = some (predictorFunctions host p) := by
  obtain ⟨hfront, hback⟩ := @margin_of_mem_frame (p.header host) rfl
  have hframing {lines : List Line} (h : ∀ l ∈ lines, Margin (raw l)) :
      ∀ line ∈ lines.map raw, Framing line :=
    List.forall_mem_map.2 fun l hl => framing_of_margin (h l hl)
  have hbody : (p.header host).body = p.lines host := rfl
  rw [Header.lines_eq, List.map_append, List.map_append, hbody,
    functionsOf?_framing (hframing hfront), functionsOf?_lines host hname,
    ← List.append_nil (List.map raw _), functionsOf?_framing (hframing hback), functionsOf?,
    Option.map_some, List.append_nil]

end Header

section Calls

variable {host : Host} {p : Predictor}

/-- A search finds the only entry that passes. -/
theorem find?_eq_some_of_unique {α : Type} {test : α → Bool} {xs : List α} {x : α} (hx : x ∈ xs)
    (htest : test x = true) (hunique : ∀ y ∈ xs, test y = true → y = x) :
    xs.find? test = some x := by
  cases h : xs.find? test with
  | none => exact absurd htest (List.find?_eq_none.1 h x hx)
  | some y => rw [hunique y (List.mem_of_find?_eq_some h) (List.find?_some h)]

theorem estimator_injective (function : String) :
    Function.Injective (BaseName.estimator function) := by
  intro i j h
  have htext := congrArg String.toList h
  simp only [BaseName.estimator, String.toList_append, List.append_cancel_left_eq] at htext
  exact nat_injective (String.toList_inj.1 htext)

theorem estimator_ne (function : String) (index : Nat) :
    BaseName.estimator function index ≠ function := by
  intro h
  have hlength := congrArg (fun s => s.toList.length) h
  simp [BaseName.estimator] at hlength
  omega

/-- The name of a member leads to it. -/
theorem find?_member {entry : Statement × Nat} (h : entry ∈ p.members.zipIdx) :
    ((predictorFunctions host p).find? fun f => f.name = BaseName.estimator p.function entry.2) =
      some (memberFunction host p entry) := by
  apply find?_eq_some_of_unique (List.mem_append_left _ (List.mem_map_of_mem h))
    (by simp [memberFunction])
  intro f hf htest
  cases List.mem_append.1 hf with
  | inl hf =>
    obtain ⟨other, hother, rfl⟩ := List.mem_map.1 hf
    have hindex : other.2 = entry.2 := estimator_injective p.function (of_decide_eq_true htest)
    rw [List.mem_zipIdx_iff_getElem?] at h hother
    rw [hindex, h] at hother
    rw [show other = entry from Prod.ext (Option.some.inj hother).symm hindex]
  | inr hf =>
    obtain rfl := List.mem_singleton.1 hf
    exact absurd (of_decide_eq_true htest).symm (estimator_ne p.function entry.2)

theorem find?_tally :
    ((predictorFunctions host p).find? fun f => f.name = p.function) =
      some (tallyFunction host p) := by
  apply find?_eq_some_of_unique (List.mem_append_right _ (List.mem_singleton_self _))
    (by simp [tallyFunction])
  intro f hf htest
  cases List.mem_append.1 hf with
  | inl hf =>
    obtain ⟨other, -, rfl⟩ := List.mem_map.1 hf
    exact absurd (of_decide_eq_true htest) (estimator_ne p.function other.2)
  | inr hf => exact List.mem_singleton.1 hf

/-- A vote of the tally is the value of its member. -/
theorem value?_voteOf (env : String → Float) {entry : Statement × Nat}
    (h : entry ∈ p.members.zipIdx) (hplain : Plain entry.1) :
    Call.value? env (predictorFunctions host p) (tallyFunction host p)
      (voteOf host p.function entry.2) = valueOf? env entry.1 := by
  have hcall : (memberFunction host p entry).result = "double" ∧
      (memberFunction host p entry).parameters = (tallyFunction host p).parameters ∧
      handsOn (tallyFunction host p).parameters ((argumentsOf host).map String.toList) = true :=
    ⟨rfl, rfl, handsOn_argumentsOf host⟩
  rw [Call.value?, voteOf, find?_member h]
  simp only [Option.bind_eq_bind, Option.bind_some]
  rw [if_pos hcall, memberFunction, readBody?_lines hplain 1, Option.bind_some]

/-- The tally counts the members whose values are below one. -/
theorem decision?_predictorFunctions (env : String → Float) (hplain : ∀ s ∈ p.members, Plain s) :
    decision? env (predictorFunctions host p) p.function =
      (p.members.mapM (valueOf? env)).map fun ratios =>
        decide (keepThreshold p.members.length ≤ ratios.countP (· < 1.0)) := by
  have hvotes : (List.range p.members.length).map (voteOf host p.function) =
      p.members.zipIdx.map fun entry => voteOf host p.function entry.2 := by
    rw [List.range_eq_range', ← List.zipIdx_map_snd 0, List.map_map]
    rfl
  have hcalls : ((List.range p.members.length).map (voteOf host p.function)).mapM
      (Call.value? env (predictorFunctions host p) (tallyFunction host p)) =
        p.members.mapM (valueOf? env) := by
    conv_rhs => rw [← List.zipIdx_map_fst 0 p.members, List.mapM_map]
    rw [hvotes, List.mapM_map]
    exact mapM_congr fun entry hentry => value?_voteOf env hentry
      (hplain _ (List.fst_mem_of_mem_zipIdx hentry))
  have hbody : readTally? (tallyFunction host p).body =
      some ⟨(List.range p.members.length).map (voteOf host p.function),
        keepThreshold p.members.length⟩ := readTally?_tallyBody host p
  rw [decision?, find?_tally]
  simp only [Option.bind_eq_bind, Option.bind_some]
  rw [if_pos (show (tallyFunction host p).result = "bool" from rfl), hbody, Option.bind_some, hcalls]
  cases p.members.mapM (valueOf? env) <;> rfl

end Calls

section Model

/-- The members of a model as statements. -/
def statementsOf (m : Model) (accessors : List String) : List Statement :=
  m.trees.map fun t => Statement.ofNode accessors t.root

variable {m : Model} {names accessors : List String} {host : Host}

/-- A tree has finite thresholds; with finite leaves and accessors for its features it is readable. -/
theorem readable_root {t : Tree Float}
    (hleaves : ∀ e ∈ t.arena, e.isLeaf = true →
      e.weights.discard.isFinite = true ∧ e.weights.keep.isFinite = true)
    (hfeatures : ∀ f ∈ t.features, f < accessors.length) : Readable accessors t.root :=
  readable_of_shows t.root_spans.2 (fun _ he hleaf => (Tree.split_bounds he hleaf).2) hleaves
    fun _ he hleaf => hfeatures _ (Tree.mem_features he hleaf)

/-- The check passes exactly when every tested feature has a name. -/
theorem checkFeatures_eq_ok_iff {t : Tree Float} :
    checkFeatures t names = .ok () ↔ ∀ f ∈ t.features, f < names.length := by
  rw [checkFeatures, Tree.maxFeature?]
  cases hmax : t.features.max? with
  | none =>
    rw [List.max?_eq_none_iff] at hmax
    simp [hmax]
  | some index =>
    obtain ⟨hmem, hgreatest⟩ := List.max?_eq_some_iff.1 hmax
    dsimp only
    split
    · rename_i hle
      exact iff_of_false (fun h => by cases h) fun h => (h index hmem).not_ge hle
    · rename_i hlt
      exact iff_of_true rfl fun f hf => (hgreatest f hf).trans_lt (not_le.1 hlt)

theorem statement?_eq_ok {t : Tree Float} (r : Resolver)
    (hfeatures : ∀ f ∈ t.features, f < names.length) :
    statement? t names r = .ok (Statement.ofNode (r.resolveAll names) t.root) := by
  rw [statement?, checkFeatures_eq_ok_iff.2 hfeatures]
  rfl

theorem ofModel?_eq_ok (function : String)
    (hfeatures : ∀ t ∈ m.trees, ∀ f ∈ t.features, f < names.length) :
    Predictor.ofModel? m names function host =
      .ok ⟨function, statementsOf m ((Resolver.ofHost host).resolveAll names)⟩ := by
  have hmembers : (m.trees.mapM fun t => statement? t names (.ofHost host)) =
      .ok (statementsOf m ((Resolver.ofHost host).resolveAll names)) := by
    rw [mapM_eq_ok_iff, statementsOf, List.forall₂_map_right_iff, List.forall₂_same]
    intro t ht
    exact statement?_eq_ok _ (hfeatures t ht)
  rw [Predictor.ofModel?, hmembers]
  rfl

/-- The values of the members' statements give the decision of the model. -/
theorem compiledKeep?_eq (hreadable : ∀ t ∈ m.trees, Readable accessors t.root)
    (env : String → Float) :
    ∃ keep, m.compiledKeep? (accessors.map env) = some keep ∧
      (((statementsOf m accessors).mapM (valueOf? env)).map fun ratios =>
        decide (keepThreshold (statementsOf m accessors).length ≤ ratios.countP (· < 1.0))) =
          some keep := by
  have hmember : ∀ t ∈ m.trees, ∃ w, t.leafWeights? (accessors.map env) = some w ∧
      valueOf? env (Statement.ofNode accessors t.root) = some (leafRatio w) := by
    intro t ht
    obtain ⟨leaf, hleaf, hvalue⟩ := valueOf?_ofNode (hreadable t ht) env
    exact ⟨leaf.2, by rw [Tree.leafWeights?, hleaf, Option.map_some], hvalue⟩
  have : Nonempty (Weights Float) := ⟨⟨0, 0⟩⟩
  choose! w hleaf hvalue using hmember
  have hleaves : (m.trees.mapM fun t : Tree Float => t.leafWeights? (accessors.map env)) =
      some (m.trees.map w) := by
    rw [mapM_eq_some_iff, List.forall₂_map_right_iff, List.forall₂_same]
    exact hleaf
  have hvalues : (statementsOf m accessors).mapM (valueOf? env) =
      some (m.trees.map fun t => leafRatio (w t)) := by
    rw [statementsOf, mapM_eq_some_iff, List.forall₂_map_left_iff, List.forall₂_map_right_iff,
      List.forall₂_same]
    exact hvalue
  refine ⟨_, by rw [Model.compiledKeep?, hleaves, Option.map_some], ?_⟩
  rw [hvalues, Option.map_some, statementsOf, List.length_map, List.countP_map, List.countP_map]
  rfl

/-- With finite leaves, a name for every feature, a valid base and a host without line breaks, a
predictor is written; its text has one `static double` function for each member, in order, and one
`static bool` tally, and it decides on every assignment to the accessors as the model decides on the
row of their values. -/
theorem compilePredictor?_decides (m : Model) (names : List String) (base : String) (cluster : Nat)
    (host : Host)
    (hleaves : ∀ t ∈ m.trees, ∀ e ∈ t.arena, e.isLeaf = true →
      e.weights.discard.isFinite = true ∧ e.weights.keep.isFinite = true)
    (hfeatures : ∀ t ∈ m.trees, ∀ f ∈ t.features, f < names.length)
    (hbase : BaseName.isValid base = true) (hhost : ∀ s ∈ textsOf host, OneLine s)
    (haccessors : ∀ a ∈ (Resolver.ofHost host).resolveAll names, OneLine a) :
    ∃ artifact functions, compilePredictor? m names base cluster host = .ok artifact ∧
      functionsOf? (linesOf artifact.text) = some functions ∧
      functions.map (fun f => (f.result, f.name)) =
        (List.range m.trees.length).map
          (fun i => ("double", BaseName.estimator (BaseName.predictor base cluster) i)) ++
          [("bool", BaseName.predictor base cluster)] ∧
      ∀ env : String → Float, ∃ keep,
        m.compiledKeep? (((Resolver.ofHost host).resolveAll names).map env) = some keep ∧
          decision? env functions (BaseName.predictor base cluster) = some keep := by
  obtain ⟨accessors, hresolved⟩ : ∃ as, (Resolver.ofHost host).resolveAll names = as := ⟨_, rfl⟩
  have hlength : accessors.length = names.length := by
    rw [← hresolved, Resolver.resolveAll, List.length_map]
  have hreadable : ∀ t ∈ m.trees, Readable accessors t.root := fun t ht =>
    readable_root (hleaves t ht) fun f hf => hlength ▸ hfeatures t ht f hf
  have hfront : Word "should_keep_" := word_ofList (by decide)
  have hword : Word (BaseName.predictor base cluster) :=
    (hfront.append (word_of_isValid hbase)).append (word_nat cluster)
  obtain ⟨p, hp⟩ : ∃ p : Predictor,
    p = ⟨BaseName.predictor base cluster, statementsOf m accessors⟩ := ⟨_, rfl⟩
  have hcompile : compilePredictor? m names base cluster host =
      .ok (p.artifact host (BaseName.predictorFile base cluster)) := by
    rw [compilePredictor?, CodeError.checkBase, BaseName.check, if_pos hbase,
      ofModel?_eq_ok _ hfeatures, hresolved, hp]
    rfl
  have hfunction : p.function = BaseName.predictor base cluster := by rw [hp]
  have hmembers : p.members = statementsOf m accessors := by rw [hp]
  have hplain : ∀ s ∈ p.members, Plain s := by
    rw [hmembers, statementsOf, List.forall_mem_map]
    intro t ht
    exact plain_ofNode (hreadable t ht)
  have hbody : AllOneLine (p.lines host) := by
    apply allOneLine_lines host hhost (hfunction ▸ hword)
    rw [hmembers, statementsOf, List.forall_mem_map]
    intro t ht
    exact allOneLine_ofNode (hreadable t ht) (hresolved ▸ haccessors) 1
  have hkind : OneLine "KEEP_PREDICTOR" := oneLine_ofList (by decide)
  have hheader : AllOneLine (p.header host).lines := by
    simp only [textsOf, List.forall_mem_append, List.forall_mem_cons] at hhost
    exact allOneLine_header (by simp [Predictor.header])
      (oneLine_guard hkind (hfunction ▸ hword.oneLine)) hhost.2.2 (by simp [Predictor.header])
      hhost.1.1 hbody
  have htext : (p.artifact host (BaseName.predictorFile base cluster)).text =
      render (p.header host).lines := by simp only [Predictor.artifact, Header.text]
  refine ⟨_, predictorFunctions host p, hcompile, ?_, ?_, fun env => ?_⟩
  · rw [htext, linesOf_render hheader, functionsOf?_header host (hfunction ▸ hword)]
  · rw [predictorFunctions_names, hfunction, hmembers, statementsOf, List.length_map]
  · obtain ⟨keep, hkeep, hvalue⟩ := compiledKeep?_eq hreadable env
    refine ⟨keep, hresolved ▸ hkeep, ?_⟩
    rw [← hfunction, decision?_predictorFunctions env hplain, hmembers]
    exact hvalue

/-- One split on the size of a clause: small clauses are kept, and what is not a number is not
small. -/
theorem compilePredictor?_decides_split :
    ∃ (t : Tree Float) (artifact : Artifact) (functions : List Function), t.features = [0] ∧
      compilePredictor? (.single t) ["cl.size"] "short" 0 {} = .ok artifact ∧
      functionsOf? (linesOf artifact.text) = some functions ∧
      functions.map (fun f => (f.result, f.name)) =
        [("double", "estimator_should_keep_short0_0"), ("bool", "should_keep_short0")] ∧
      decision? (fun _ => 0.25) functions "should_keep_short0" = some true ∧
      decision? (fun _ => 0.0 / 0.0) functions "should_keep_short0" = some false := by
  obtain ⟨arena, harena⟩ : ∃ arena : Arena Float, arena = .ofLists [1, -1, -1] [2, -1, -1]
    [0, -2, -2] [0.5, -2.0, -2.0] [⟨5.0, 3.0⟩, ⟨1.0, 3.0⟩, ⟨4.0, 0.0⟩] := ⟨_, rfl⟩
  have hvalid : arena.fault? = none := by
    have : arena.fault?.isNone = true := by
      rw [harena]
      decide +kernel
    simpa using this
  have hleaves : ∀ e ∈ arena, e.isLeaf = true →
      e.weights.discard.isFinite = true ∧ e.weights.keep.isFinite = true := by
    rw [harena]
    decide +kernel
  have hfeatures : (⟨arena, hvalid⟩ : Tree Float).features = [0] := by
    subst harena
    decide +kernel +revert
  have hkeep : Model.compiledKeep? (.single ⟨arena, hvalid⟩) [0.25] = some true := by
    subst harena
    decide +kernel +revert
  have hdiscard : Model.compiledKeep? (.single ⟨arena, hvalid⟩) [0.0 / 0.0] = some false := by
    subst harena
    decide +kernel +revert
  obtain ⟨artifact, functions, hcompile, hread, hnames, hrun⟩ :=
    compilePredictor?_decides (.single ⟨arena, hvalid⟩) ["cl.size"] "short" 0 {}
      (by simpa [Model.trees] using hleaves) (by simp [Model.trees, hfeatures]) (by decide +kernel)
      (by decide +kernel) (by decide +kernel)
  obtain ⟨first, hfirst, hfirstRun⟩ := hrun fun _ => 0.25
  obtain ⟨second, hsecond, hsecondRun⟩ := hrun fun _ => 0.0 / 0.0
  obtain rfl : true = first := Option.some.inj (hkeep.symm.trans hfirst)
  obtain rfl : false = second := Option.some.inj (hdiscard.symm.trans hsecond)
  have hdeclared : [("double", BaseName.estimator (BaseName.predictor "short" 0) 0),
      ("bool", BaseName.predictor "short" 0)] =
        [("double", "estimator_should_keep_short0_0"), ("bool", "should_keep_short0")] := by
    decide +kernel
  exact ⟨_, artifact, functions, hfeatures, hcompile, hread, hnames.trans hdeclared, hfirstRun,
    hsecondRun⟩

end Model

end ClauseTriage.Source
