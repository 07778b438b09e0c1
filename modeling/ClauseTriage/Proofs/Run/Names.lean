import ClauseTriage.Proofs.Run.Dispatch
import ClauseTriage.Proofs.Source.Names

/-!
# The names in the headers of a run

Files, guards and declarations are read off the headers that a run makes: the guard is what the
first `#ifndef` of the text asks for, and a line at the margin declares a function, a class, a type
or a table. Whatever the texts of the host are, these are the names that are made from the base.
-/
namespace ClauseTriage

open Code Source Text

namespace Source

section Reading

/-- What the first `#ifndef` of a text asks for. -/
def guardOf? (text : String) : Option String :=
  ((splitAtEach '\n' text.toList).findSome? (stripFront? "#ifndef ".toList)).map String.ofList

/-- A name up to a character. -/
def nameTo? (stop : Char) (line : Raw) : Option String :=
  (cutAt? stop line).map fun cut => String.ofList cut.1

/-- A name behind a type. -/
def typedName? (stop : Char) (line : Raw) : Option String :=
  (cutAt? ' ' line).bind fun cut => nameTo? stop cut.2

/-- What a line declares at the margin: a function, a class, a type of functions or a table. -/
def declaredName? (line : Raw) : Option String :=
  if line.head? = some ' ' then none
  else
    match stripFront? "static ".toList line with
    | some line => typedName? '(' line
    | none =>
      match stripFront? "class ".toList line with
      | some line => nameTo? ' ' line
      | none =>
        match stripFront? "typedef bool (*".toList line with
        | some line => nameTo? ')' line
        | none => typedName? '[' line

/-- What lines declare, in order. -/
def declaredNames (lines : List Line) : List String :=
  lines.filterMap fun l => declaredName? (raw l)

variable {name : String} {lines : List Line}

theorem stripFront?_ofList {front cs : List Char} (h : stripFront? front cs = none) :
    stripFront? front (String.ofList cs).toList = none := by rwa [String.toList_ofList]

/-- Before its guard a header has remarks at most, and these do not ask for one. -/
theorem guardOf?_text {h : Header} (hremarks : ∀ s ∈ h.remarks, OneLine s ∧
    stripFront? "#ifndef ".toList s.toList = none) (hguard : OneLine h.guard) :
    guardOf? h.text = some h.guard := by
  have hbanner : ∀ s ∈ banner, OneLine s ∧ stripFront? "#ifndef ".toList s.toList = none := by
    simp only [banner, List.forall_mem_cons, List.not_mem_nil, false_implies, implies_true, and_true]
    and_intros <;> first
      | exact oneLine_ofList (by decide)
      | exact stripFront?_ofList (by decide)
  have hfront : ∀ s ∈ banner ++ h.remarks, OneLine s ∧
      stripFront? "#ifndef ".toList s.toList = none := List.forall_mem_append.2 ⟨hbanner, hremarks⟩
  obtain ⟨rest, hlines⟩ : ∃ rest, h.lines =
      ((banner ++ h.remarks).map .flush ++ [.flush ("#ifndef " ++ h.guard)]) ++ rest := by
    rw [Header.lines, List.map_append]
    simp only [List.append_assoc, List.cons_append]
    exact ⟨_, rfl⟩
  have honeLine : AllOneLine
      ((banner ++ h.remarks).map .flush ++ [.flush ("#ifndef " ++ h.guard)]) := by
    rw [allOneLine_append, allOneLine_map, allOneLine_cons]
    exact ⟨fun s hs => (hfront s hs).1, oneLine_append.2 ⟨oneLine_ofList (by decide), hguard⟩,
      allOneLine_nil⟩
  have hnone : ((banner ++ h.remarks).map (raw ∘ .flush)).findSome?
      (stripFront? "#ifndef ".toList) = none := by
    refine List.findSome?_eq_none_iff.2 (List.forall_mem_map.2 fun s hs => ?_)
    exact (hfront s hs).2
  have hraw : stripFront? "#ifndef ".toList (raw (.flush ("#ifndef " ++ h.guard))) =
      some h.guard.toList := by
    change stripFront? "#ifndef ".toList ("#ifndef " ++ h.guard).toList = _
    rw [String.toList_append, stripFront?_append]
  rw [guardOf?, Header.text, hlines, toList_render_append, splitAtEach_render honeLine,
    List.map_append, List.map_map, List.append_assoc, List.findSome?_append, hnone, Option.none_or,
    List.map_singleton, List.singleton_append, List.findSome?_cons, hraw]
  exact congrArg some String.ofList_toList

theorem declaredNames_append (lines more : List Line) :
    declaredNames (lines ++ more) = declaredNames lines ++ declaredNames more :=
  List.filterMap_append

theorem declaredNames_eq_nil (h : ∀ l ∈ lines, l = .blank ∨ 0 < l.depth) :
    declaredNames lines = [] := by
  refine List.filterMap_eq_nil_iff.2 fun l hl => ?_
  rcases h l hl with rfl | hdepth
  · decide
  · rw [raw_of_depth_pos hdepth]
    rfl

theorem declaredNames_cons {l : Line} (h : declaredName? (raw l) = some name) (lines : List Line) :
    declaredNames (l :: lines) = name :: declaredNames lines := by
  rw [declaredNames, List.filterMap_cons, h]
  rfl

section Lines

variable {type : List Char} {stop : Char}

theorem nameTo?_append (h : stop ∉ name.toList) (rest : List Char) :
    nameTo? stop (name.toList ++ stop :: rest) = some name := by
  rw [nameTo?, cutAt?_append h]
  exact congrArg some String.ofList_toList

theorem typedName?_append (htype : ' ' ∉ type) (h : stop ∉ name.toList) (rest : List Char) :
    typedName? stop (type ++ ' ' :: (name.toList ++ stop :: rest)) = some name := by
  rw [typedName?, cutAt?_append htype]
  exact nameTo?_append h rest

theorem declaredName?_function (htype : ' ' ∉ type) (h : '(' ∉ name.toList) (rest : List Char) :
    declaredName? ("static ".toList ++ (type ++ ' ' :: (name.toList ++ '(' :: rest))) =
      some name := by
  rw [declaredName?, if_neg nofun, stripFront?_append]
  exact typedName?_append htype h rest

theorem declaredName?_class (h : ' ' ∉ name.toList) (rest : List Char) :
    declaredName? ("class ".toList ++ (name.toList ++ ' ' :: rest)) = some name := by
  have hstatic (line : Raw) : stripFront? "static ".toList ("class ".toList ++ line) = none := rfl
  rw [declaredName?, if_neg nofun, hstatic, stripFront?_append]
  exact nameTo?_append h rest

theorem declaredName?_type (h : ')' ∉ name.toList) (rest : List Char) :
    declaredName? ("typedef bool (*".toList ++ (name.toList ++ ')' :: rest)) = some name := by
  have hstatic (line : Raw) :
      stripFront? "static ".toList ("typedef bool (*".toList ++ line) = none := rfl
  have hclass (line : Raw) :
      stripFront? "class ".toList ("typedef bool (*".toList ++ line) = none := rfl
  rw [declaredName?, if_neg nofun, hstatic, hclass, stripFront?_append]
  exact nameTo?_append h rest

/-- The type of a table begins with none of the words. -/
theorem declaredName?_table (htype : ' ' ∉ 'k' :: type) (h : '[' ∉ name.toList) (rest : List Char) :
    declaredName? ('k' :: type ++ ' ' :: (name.toList ++ '[' :: rest)) = some name := by
  have hstatic (line : Raw) : stripFront? "static ".toList ('k' :: line) = none := rfl
  have hclass (line : Raw) : stripFront? "class ".toList ('k' :: line) = none := rfl
  have htypedef (line : Raw) : stripFront? "typedef bool (*".toList ('k' :: line) = none := rfl
  rw [List.cons_append, declaredName?, if_neg nofun, hstatic, hclass, htypedef]
  exact typedName?_append htype h rest

end Lines

/-- A function declares its name. -/
theorem declaredNames_function {result : String} (host : Host) {body : List Line}
    (hresult : ' ' ∉ result.toList) (hname : '(' ∉ name.toList) (hbody : ∀ l ∈ body, 0 < l.depth) :
    declaredNames (function 0 result name host body) = [name] := by
  have hhead : declaredName? (raw ⟨0, "static " ++ result ++ " " ++ name ++ "("⟩) = some name := by
    rw [← declaredName?_function hresult hname []]
    simp [raw, indent]
  have hparams : declaredNames (⟨1, "const " ++ host.clauseType ++ "* " ++ host.clauseVar⟩ ::
      host.params.map fun p => ⟨1, ", const " ++ host.paramType ++ " " ++ p.ident⟩) = [] := by
    refine declaredNames_eq_nil (List.forall_mem_cons.2 ⟨.inr Nat.one_pos, ?_⟩)
    exact List.forall_mem_map.2 fun p _ => .inr Nat.one_pos
  have hopen : declaredNames [⟨0, ") \x7b"⟩] = [] := by decide
  have hclose : declaredNames [⟨0, "\x7d"⟩] = [] := by decide
  rw [function, signature, List.cons_append, List.cons_append, List.cons_append,
    declaredNames_cons hhead, declaredNames_append, declaredNames_append, declaredNames_append,
    hparams, hopen, hclose, declaredNames_eq_nil fun l hl => .inr (hbody l hl)]
  rfl

/-- A class declares its name; what stands in it is indented. -/
theorem declaredNames_router (r : Router) (hname : ' ' ∉ r.className.toList) :
    declaredNames r.lines = [r.className] := by
  have hhead : declaredName? (raw (.flush ("class " ++ r.className ++ " \x7b"))) =
      some r.className := by
    rw [← declaredName?_class hname ['\x7b']]
    simp [raw, indent, Line.flush]
  have hpublic : declaredNames [.flush "public:"] = [] := by decide
  have hclose : declaredNames [.flush "\x7d;"] = [] := by decide
  obtain ⟨inside, hinside, hlines⟩ : ∃ inside : List Line,
      (∀ l ∈ inside, l = .blank ∨ 0 < l.depth) ∧ r.lines = .flush ("class " ++ r.className ++ " \x7b") ::
        ([.flush "public:"] ++ (inside ++ [.flush "\x7d;"])) := by
    refine ⟨[⟨1, r.className ++ "() \x7b"⟩, ⟨2, "set_up_centers();"⟩, ⟨1, "\x7d"⟩, .blank,
      ⟨1, r.record ++ " center[" ++ nat r.centers.length ++ "];"⟩, .blank] ++ r.setUpLines ++
        Router.squareLines ++ r.distanceLines ++ r.closestLines, ?_, ?_⟩
    · simp only [Router.setUpLines, Router.centerLines, Router.squareLines, Router.distanceLines,
        Router.closestLines, List.forall_mem_append, List.forall_mem_cons, List.forall_mem_map,
        List.forall_mem_flatMap]
      simp
    · simp only [Router.lines, List.cons_append, List.nil_append, List.append_assoc]
  rw [hlines, declaredNames_cons hhead, declaredNames_append, declaredNames_append, hpublic, hclose,
    declaredNames_eq_nil hinside]
  rfl

/-- A table is declared with the type of its functions. -/
theorem declaredNames_dispatch (host : Host) {base : String} (functions : List String)
    (hbase : Word base) : declaredNames (Dispatch.lines host
      ⟨BaseName.dispatchType base, BaseName.dispatchTable base, functions⟩) =
        [BaseName.dispatchType base, BaseName.dispatchTable base] := by
  have htype : Word (BaseName.dispatchType base) := (word_ofList (by decide)).append hbase
  have htable : Word (BaseName.dispatchTable base) :=
    ((word_ofList (by decide)).append hbase).append (word_ofList (by decide))
  have htypedef : declaredName? (raw (.flush ("typedef bool (*" ++ BaseName.dispatchType base ++
      ")(" ++ signatureTypes host ++ ");"))) = some (BaseName.dispatchType base) := by
    rw [← declaredName?_type (htype.notMem (by decide))
      ('(' :: (signatureTypes host ++ ");").toList)]
    simp [raw, indent, Line.flush]
  have hdeclared : declaredName? (raw (.flush (BaseName.dispatchType base ++ " " ++
      BaseName.dispatchTable base ++ "[" ++ nat functions.length ++ "] = \x7b"))) =
        some (BaseName.dispatchTable base) := by
    obtain ⟨type, hk⟩ : ∃ type, (BaseName.dispatchType base).toList = 'k' :: type :=
      ⟨_, String.toList_append ..⟩
    rw [← declaredName?_table (hk ▸ htype.notMem (by decide)) (htable.notMem (by decide))
      (nat functions.length ++ "] = \x7b").toList, ← hk]
    simp [raw, indent, Line.flush]
  have hfunctions :
      declaredNames (functions.map fun f => ⟨1, host.scope ++ "::" ++ f ++ ","⟩) = [] :=
    declaredNames_eq_nil (List.forall_mem_map.2 fun f _ => .inr Nat.one_pos)
  have hblank : declaredName? (raw .blank) = none := by decide
  have hclose : declaredNames [.flush "\x7d;"] = [] := by decide
  rw [Dispatch.lines, declaredNames_append, declaredNames_append, hfunctions, hclose,
    declaredNames_cons htypedef, declaredNames, List.filterMap_cons, hblank]
  exact congrArg (_ :: · ++ _ ++ _) (declaredNames_cons hdeclared [])

/-- A predictor declares its members and its tally. -/
theorem declaredNames_predictor (host : Host) (p : Predictor) (hname : Word p.function) :
    declaredNames (p.lines host) =
      (List.range p.members.length).map (BaseName.estimator p.function) ++ [p.function] := by
  have hmember (m : Statement × ℕ) : declaredNames (Predictor.memberLines host p.function m.2 m.1) =
      [BaseName.estimator p.function m.2] := by
    rw [Predictor.memberLines, declaredNames_append, estimatorLines,
      declaredNames_function host (by decide) ((word_estimator hname _).notMem (by decide))
        (fun l hl => le_depth_of_mem_lines hl)]
    rfl
  have htally : declaredNames (p.tallyLines host) = [p.function] :=
    declaredNames_function host (by decide) (hname.notMem (by decide))
      (depth_pos_of_mem_tallyBody host p)
  have hmembers : declaredNames (p.members.zipIdx.flatMap fun m =>
      Predictor.memberLines host p.function m.2 m.1) =
        (List.range p.members.length).map (BaseName.estimator p.function) := by
    rw [declaredNames, List.filterMap_flatMap, List.range_eq_range', ← List.zipIdx_map_snd 0,
      List.map_map, List.map_eq_flatMap]
    exact List.flatMap_congr fun m _ => hmember m
  rw [Predictor.lines, declaredNames_append, htally]
  exact congrArg (· ++ _) hmembers

end Reading

end Source

/-! ## The headers of one run -/

/-- A header stands in the text of an artifact, with a guard and the names that it declares. -/
structure Code.Artifact.Shows (a : Artifact) (guard : String) (names : List String) (h : Header) :
    Prop where
  text : a.text = h.text
  guard_eq : h.guard = guard
  guardOf : guardOf? a.text = some guard
  declares : declaredNames h.body = names

namespace Code

variable {base : String} {host : Host} {a : Artifact}

/-- An artifact shows the header that it is the text of. -/
theorem Artifact.shows {h : Header} {guard : String} {names : List String} (file : String)
    (entries : List String) (hguard : h.guard = guard) (hnames : declaredNames h.body = names)
    (honeLine : OneLine guard) (hremarks : ∀ s ∈ h.remarks, OneLine s ∧
      stripFront? "#ifndef ".toList s.toList = none) :
    Artifact.Shows ⟨file, entries, h.text⟩ guard names h where
  text := by dsimp only
  guard_eq := hguard
  guardOf := by
    dsimp only
    rw [← hguard]
    exact guardOf?_text hremarks (hguard ▸ honeLine)
  declares := hnames

theorem compileRouter?_shows {c : Centroids Float} {names : List String} {clusters : ℕ}
    (h : compileRouter? c names clusters base host = .ok a) :
    ∃ header, a.Shows (BaseName.routerGuard base) [BaseName.routerClass base] header := by
  have hbase := word_of_isValid (exists_compileRouter?_iff.1 ⟨a, h⟩).1
  have hclass : Word (BaseName.routerClass base) := (word_ofList (by decide)).append hbase
  have hguard : OneLine (BaseName.routerGuard base) :=
    oneLine_guard (oneLine_ofList (by decide)) hbase.oneLine
  simp only [compileRouter?, bind_eq_ok_iff, refuse_eq_ok_iff] at h
  obtain ⟨⟨⟩, -, -, -, -, h⟩ := h
  obtain rfl := Except.ok.inj h
  refine ⟨_, Artifact.shows _ _ rfl (declaredNames_router _ ?_) hguard (List.forall_mem_nil _)⟩
  exact hclass.notMem (by decide)

theorem compileDispatch?_shows {router : Artifact} {predictors : List Artifact}
    (h : compileDispatch? base router predictors host = .ok a) :
    ∃ header, a.Shows (BaseName.dispatchGuard base)
      [BaseName.dispatchType base, BaseName.dispatchTable base] header := by
  have hbase := word_of_isValid (exists_compileDispatch?_iff.1 ⟨a, h⟩).1
  have hguard : OneLine (BaseName.dispatchGuard base) :=
    oneLine_guard (oneLine_ofList (by decide)) hbase.oneLine
  have hremark : OneLine "///auto-generated code. Under MIT license." := oneLine_ofList (by decide)
  simp only [compileDispatch?, bind_eq_ok_iff, refuse_eq_ok_iff] at h
  obtain ⟨⟨⟩, -, -, h⟩ := h
  obtain rfl := Except.ok.inj h
  refine ⟨_, Artifact.shows _ _ rfl (declaredNames_dispatch host _ hbase) hguard ?_⟩
  exact List.forall_mem_singleton.2 ⟨hremark, by decide⟩

theorem compilePredictor?_shows {m : Model} {names : List String} {cluster : ℕ}
    (h : compilePredictor? m names base cluster host = .ok a) :
    ∃ header, a.Shows (BaseName.predictorGuard (BaseName.predictor base cluster))
      ((List.range m.trees.length).map (BaseName.estimator (BaseName.predictor base cluster)) ++
        [BaseName.predictor base cluster]) header := by
  simp only [compilePredictor?, Predictor.ofModel?, bind_eq_ok_iff, map_eq_ok_iff,
    mapM_eq_ok_iff] at h
  obtain ⟨⟨⟩, hbase, p, ⟨members, hmembers, rfl⟩, h⟩ := h
  obtain rfl := Except.ok.inj h
  have hname : Word (BaseName.predictor base cluster) :=
    ((word_ofList (by decide)).append (word_of_isValid (checkBase_eq_ok_iff.1 hbase))).append
      (word_nat cluster)
  have hguard : OneLine (BaseName.predictorGuard (BaseName.predictor base cluster)) :=
    oneLine_guard (oneLine_ofList (by decide)) hname.oneLine
  rw [hmembers.length_eq]
  have hnames := declaredNames_predictor host ⟨BaseName.predictor base cluster, members⟩ hname
  exact ⟨_, Artifact.shows _ _ rfl hnames hguard (List.forall_mem_nil _)⟩

end Code

/-- The trees of a cluster's model. -/
def ClusterReport.memberCount (r : ClusterReport) : ℕ := r.model.elim 0 fun m => m.trees.length

/-- The names in the headers of a run, as they are made from its base. -/
structure HeaderNames (base : String) (members : List ℕ) (artifacts : List Artifact)
    (headers : List Header) : Prop where
  texts : List.Forall₂ (fun a h => a.text = h.text) artifacts headers
  files : artifacts.map Artifact.file = BaseName.files base members.length
  guards : artifacts.map (fun a => guardOf? a.text) =
    (BaseName.guards base members.length).map some
  declared : (headers.flatMap fun h => declaredNames h.body) = BaseName.declared base members

namespace HeaderSet

variable {s : Settings} {report : Report} {base : String} {router dispatch : Artifact}
  {predictors : List Artifact}

/-- A predictor's header has the names of the cluster in its report. -/
theorem predictor_shows {r : ClusterReport} {host : Host} {a : Artifact}
    (h : r.predictor? base host = .ok a) :
    ∃ header, a.Shows (BaseName.predictorGuard (BaseName.predictor base r.cluster))
      (BaseName.declaredBy base r.memberCount r.cluster) header := by
  obtain ⟨m, hm, hcompile⟩ := ClusterReport.predictor?_eq_ok h
  rw [ClusterReport.memberCount, hm]
  exact compilePredictor?_shows hcompile

theorem exists_headerNames (h : HeaderSet s report base router predictors dispatch)
    (hclusters : report.clusters.map ClusterReport.cluster = List.range s.clusters) :
    ∃ headers, HeaderNames base (report.clusters.map ClusterReport.memberCount)
      (router :: predictors ++ [dispatch]) headers := by
  obtain ⟨first, hfirst⟩ := compileRouter?_shows h.routes
  obtain ⟨last, hlast⟩ := compileDispatch?_shows h.dispatches
  obtain ⟨middle, hnames, hmiddle⟩ : ∃ middle : List Header,
      List.Forall₂ (fun c x => declaredNames x.body =
        BaseName.declaredBy base c.memberCount c.cluster) report.clusters middle ∧
      List.Forall₂ (fun x p => p.text = x.text) middle predictors := by
    refine exists_middle_of_forall₂ (h.predicts.imp fun c p hp => ?_)
    obtain ⟨x, hx⟩ := predictor_shows hp
    exact ⟨x, hx.declares, hx.text⟩
  have hlength : report.clusters.length = s.clusters := by
    rw [← List.length_range (n := s.clusters), ← hclusters, List.length_map]
  refine ⟨first :: middle ++ [last], ?_, ?_, ?_, ?_⟩
  · exact .cons hfirst.text (List.rel_append hmiddle.flip (.cons hlast.text .nil))
  · rw [List.length_map, hlength, BaseName.files_eq, List.map_append, List.map_cons,
      compileRouter?_file h.routes, h.map_file hclusters, List.map_singleton,
      compileDispatch?_file h.dispatches]
  · have hguards : predictors.map (fun p => guardOf? p.text) = (List.range s.clusters).map fun c =>
        some (BaseName.predictorGuard (BaseName.predictor base c)) := by
      rw [← hclusters, List.map_map]
      refine (map_eq_map_of_forall₂ (h.predicts.imp fun c p hp => ?_)).symm
      obtain ⟨x, hx⟩ := predictor_shows hp
      exact hx.guardOf.symm
    rw [List.length_map, hlength, BaseName.guards_eq, List.map_append, List.map_cons, hguards,
      hfirst.guardOf, List.map_singleton, hlast.guardOf]
    simp only [List.map_append, List.map_cons, List.map_map, List.map_nil]
    rfl
  · have hmembers : (report.clusters.map ClusterReport.memberCount).zipIdx =
        report.clusters.map fun c => (c.memberCount, c.cluster) := by
      rw [List.zipIdx_eq_zip_range', ← List.range_eq_range', List.length_map, hlength, ← hclusters,
        List.zip_map']
    have hpredictors : (middle.flatMap fun x => declaredNames x.body) =
        report.clusters.flatMap fun c => BaseName.declaredBy base c.memberCount c.cluster := by
      rw [List.flatMap_def, List.flatMap_def,
        map_eq_map_of_forall₂ (hnames.imp fun _ _ hx => hx.symm)]
    rw [BaseName.declared_eq, hmembers, List.flatMap_map, List.cons_append, List.flatMap_cons,
      List.flatMap_append, hpredictors, hfirst.declares, List.flatMap_singleton, hlast.declares]
    rfl

end HeaderSet

namespace Run

/-- A run makes these headers of a base, for predictors with so many members. -/
def Emits (s : Settings) (base : String) (members : List ℕ) (artifacts : List Artifact) : Prop :=
  ∃ fitter clusterFitter d report, report? s fitter clusterFitter d = .ok report ∧
    headers? s report.clusters report.centroids report.shapes base = .ok artifacts ∧
    report.clusters.map ClusterReport.memberCount = members

variable {s : Settings} {base : String} {members : List ℕ} {artifacts : List Artifact}

theorem Emits.length_eq (h : Emits s base members artifacts) : members.length = s.clusters := by
  obtain ⟨fitter, clusterFitter, d, report, hreport, hheaders, rfl⟩ := h
  obtain ⟨r, hr, htrained⟩ := report?_eq_ok hreport
  have hclusters := congrArg List.length (trainAll?_counts htrained).1
  rw [List.length_map, List.length_range] at hclusters
  rw [List.length_map, hclusters]
  rfl

theorem Emits.exists_headerNames (h : Emits s base members artifacts) :
    ∃ headers, HeaderNames base members artifacts headers := by
  obtain ⟨fitter, clusterFitter, d, report, hreport, hheaders, rfl⟩ := h
  obtain ⟨r, hr, htrained⟩ := report?_eq_ok hreport
  obtain ⟨router, predictors, dispatch, hset, rfl⟩ := headers?_eq_ok hheaders
  exact hset.exists_headerNames (trainAll?_counts htrained).1

/-- No two headers of a run have one file, no two of them have one guard, and no two names that they
declare are equal, whatever the base is and however many clusters and members there are. These are
the names in the headers: the guard that a text asks for first, and what its lines declare. -/
theorem header_names_distinct (base : String) (members : List ℕ) :
    (BaseName.files base members.length).Nodup ∧ (BaseName.guards base members.length).Nodup ∧
      (BaseName.declared base members).Nodup ∧
      ∀ (s : Settings) (artifacts : List Artifact), Emits s base members artifacts →
        members.length = s.clusters ∧ artifacts.length = s.clusters + 2 ∧
        ∃ headers, HeaderNames base members artifacts headers ∧
          (artifacts.map Artifact.file).Nodup ∧
          (artifacts.map fun a => guardOf? a.text).Nodup ∧
          (headers.flatMap fun h => declaredNames h.body).Nodup := by
  have hfiles := BaseName.nodup_files base members.length
  have hguards := BaseName.nodup_guards base members.length
  have hdeclared := BaseName.nodup_declared base members
  refine ⟨hfiles, hguards, hdeclared, fun s artifacts h => ?_⟩
  obtain ⟨headers, hnames⟩ := h.exists_headerNames
  have hcount : artifacts.length = s.clusters + 2 := by
    rw [← h.length_eq, ← BaseName.length_files base, ← hnames.files, List.length_map]
  refine ⟨h.length_eq, hcount, headers, hnames, hnames.files ▸ hfiles, ?_,
    hnames.declared ▸ hdeclared⟩
  rw [hnames.guards]
  exact hguards.map (Option.some_injective _)

/-- A run of two clusters with one tree each makes headers of every valid base. -/
theorem exists_emits_everyKind (base : String) (hbase : BaseName.isValid base = true) :
    ∃ artifacts, Emits everyKind base [1, 1] artifacts := by
  have hrun : (report? everyKind (TreeFitter.ofSettings everyKind).fitter (Lloyd.fit 3)
      fiveRows).toOption.map (fun report => (report.clusters.map ClusterReport.memberCount,
        decide (2 = report.centroids.count ∧ report.shapes.length = report.centroids.dimension),
        report.clusters.all fun r => r.model.any fun m => m.trees.all fun t =>
          t.features.all (· < r.features.length))) = some ([1, 1], true, true) := by decide +kernel
  obtain ⟨report, hreport, hfacts⟩ := exists_of_toOption_map hrun
  obtain ⟨hmembers, hsizes, hmodels⟩ : report.clusters.map ClusterReport.memberCount = [1, 1] ∧
      (2 = report.centroids.count ∧ report.shapes.length = report.centroids.dimension) ∧
        ∀ r ∈ report.clusters, ∃ m, r.model = some m ∧
          ∀ t ∈ m.trees, ∀ f ∈ t.features, f < r.features.length := by
    simpa [Option.any_eq_true] using hfacts
  have hlength : report.clusters.length = 2 := by
    simpa using congrArg List.length hmembers
  have hclusters : everyKind.clusters ≠ 0 := by decide
  obtain ⟨artifacts, hartifacts⟩ :=
    exists_headers? hbase hclusters hsizes.1 hsizes.2 hlength hmodels
  exact ⟨artifacts, _, _, _, report, hreport, hartifacts, hmembers⟩

/-- A base that ends in an underscore and a digit. -/
theorem header_names_distinct_digit :
    ∃ artifacts headers, Emits everyKind "a_1" [1, 1] artifacts ∧
      artifacts.length = 4 ∧ HeaderNames "a_1" [1, 1] artifacts headers ∧
      artifacts.map Artifact.file = ["clustering_a_1.h", "final_predictor_a_10.h",
        "final_predictor_a_11.h", "all_predictors_a_1.h"] ∧
      (headers.flatMap fun h => declaredNames h.body) =
        ["Clustering_a_1", "estimator_should_keep_a_10_0", "should_keep_a_10",
          "estimator_should_keep_a_11_0", "should_keep_a_11", "keep_func_type_a_1",
          "should_keep_a_1_funcs"] ∧
      (headers.flatMap fun h => declaredNames h.body).Nodup := by
  have hbase : BaseName.isValid "a_1" = true := by decide
  obtain ⟨artifacts, hemits⟩ := exists_emits_everyKind "a_1" hbase
  obtain ⟨-, -, -, hrun⟩ := header_names_distinct "a_1" [1, 1]
  obtain ⟨-, hlength, headers, hnames, -, -, hdistinct⟩ := hrun everyKind artifacts hemits
  refine ⟨artifacts, headers, hemits, hlength, hnames, ?_, ?_, hdistinct⟩
  · rw [hnames.files]
    decide +kernel
  · rw [hnames.declared]
    decide +kernel

/-! ## The headers of two runs -/

/-- The headers of two runs. Their files and what they declare meet where the bases are equal or one
base with the number of a cluster reads as the other one with such a number; guards meet where the
bases do so in capitals. Runs of all sizes keep apart when the bases differ in more than the case of
letters and neither is, in capitals, the other one with a positive number behind it. -/
theorem header_sets_apart (b b' : String) (members members' : List ℕ) :
    (∀ (s s' : Settings) (artifacts artifacts' : List Artifact),
      Emits s b members artifacts → Emits s' b' members' artifacts' →
      ∃ headers headers', HeaderNames b members artifacts headers ∧
        HeaderNames b' members' artifacts' headers' ∧
        ((artifacts.map Artifact.file).Disjoint (artifacts'.map Artifact.file) ↔
          b ≠ b' ∧ ¬BaseName.Meets b b' s.clusters s'.clusters) ∧
        ((headers.flatMap fun h => declaredNames h.body).Disjoint
            (headers'.flatMap fun h => declaredNames h.body) ↔
          b ≠ b' ∧ ¬BaseName.Meets b b' s.clusters s'.clusters) ∧
        ((artifacts.map fun a => guardOf? a.text).Disjoint
            (artifacts'.map fun a => guardOf? a.text) ↔
          BaseName.upper b ≠ BaseName.upper b' ∧
            ¬BaseName.Meets (BaseName.upper b) (BaseName.upper b') s.clusters s'.clusters)) ∧
    ((∀ members members', BaseName.Separate b b' members members') ↔
      BaseName.upper b ≠ BaseName.upper b' ∧ ∀ n, 0 < n →
        BaseName.upper b' ≠ BaseName.upper b ++ Text.nat n ∧
          BaseName.upper b ≠ BaseName.upper b' ++ Text.nat n) := by
  refine ⟨fun s s' artifacts artifacts' h h' => ?_, BaseName.forall_separate_iff⟩
  obtain ⟨headers, hnames⟩ := h.exists_headerNames
  obtain ⟨headers', hnames'⟩ := h'.exists_headerNames
  refine ⟨headers, headers', hnames, hnames', ?_, ?_, ?_⟩
  · rw [hnames.files, hnames'.files, BaseName.disjoint_files, h.length_eq, h'.length_eq]
  · rw [hnames.declared, hnames'.declared, BaseName.disjoint_declared, h.length_eq, h'.length_eq]
  · rw [hnames.guards, hnames'.guards, ← h.length_eq, ← h'.length_eq, ← BaseName.disjoint_guards]
    constructor
    · exact fun hmap x hx hx' => hmap (List.mem_map_of_mem hx) (List.mem_map_of_mem hx')
    · exact List.disjoint_map (Option.some_injective _)

/-- Bases that keep apart whatever the sizes are. -/
theorem header_sets_apart_long_short :
    (∃ artifacts artifacts', Emits everyKind "long" [1, 1] artifacts ∧
      Emits everyKind "short" [1, 1] artifacts' ∧
      (artifacts.map Artifact.file).Disjoint (artifacts'.map Artifact.file) ∧
      (artifacts.map fun a => guardOf? a.text).Disjoint (artifacts'.map fun a => guardOf? a.text)) ∧
    ∀ members members', BaseName.Separate "long" "short" members members' := by
  obtain ⟨artifacts, hemits⟩ := exists_emits_everyKind "long" (by decide)
  obtain ⟨artifacts', hemits'⟩ := exists_emits_everyKind "short" (by decide)
  obtain ⟨hruns, hall⟩ := header_sets_apart "long" "short" [1, 1] [1, 1]
  obtain ⟨headers, headers', -, -, hfiles, -, hguards⟩ :=
    hruns everyKind everyKind artifacts artifacts' hemits hemits'
  refine ⟨⟨artifacts, artifacts', hemits, hemits', hfiles.2 (by decide +kernel),
    hguards.2 (by decide +kernel)⟩, hall.2 ⟨by decide, fun n hn => ?_⟩⟩
  -- the bases begin with different letters
  have hlong : (BaseName.upper "long").toList.head? = some 'L' := by decide
  have hshort : (BaseName.upper "short").toList.head? = some 'S' := by decide
  constructor <;> intro heq <;> have h := congrArg (fun x => x.toList.head?) heq <;>
    simp [List.head?_append, hlong, hshort] at h

/-- Two bases that differ in the case of letters share their guards, so a program that includes both
sets sees one of them; the eleventh predictor of `a` is the first one of `a1`. -/
theorem header_sets_clash :
    (∃ artifacts artifacts', Emits everyKind "short" [1, 1] artifacts ∧
      Emits everyKind "SHORT" [1, 1] artifacts' ∧ "short" ≠ "SHORT" ∧
      some "CLUSTERING_SHORT_H" ∈ artifacts.map (fun a => guardOf? a.text) ∧
      some "CLUSTERING_SHORT_H" ∈ artifacts'.map (fun a => guardOf? a.text)) ∧
    (BaseName.isValid "a" = true ∧ BaseName.isValid "a1" = true ∧
      "final_predictor_a10.h" ∈ BaseName.files "a" 11 ∧
      "final_predictor_a10.h" ∈ BaseName.files "a1" 1 ∧
      "should_keep_a10" ∈ BaseName.declared "a" (List.replicate 11 1) ∧
      "should_keep_a10" ∈ BaseName.declared "a1" [1]) ∧
    ¬∀ b b', BaseName.isValid b = true → BaseName.isValid b' = true → b ≠ b' →
      ∀ members members', BaseName.Separate b b' members members' := by
  obtain ⟨artifacts, hemits⟩ := exists_emits_everyKind "short" (by decide)
  obtain ⟨artifacts', hemits'⟩ := exists_emits_everyKind "SHORT" (by decide)
  obtain ⟨headers, hnames⟩ := hemits.exists_headerNames
  obtain ⟨headers', hnames'⟩ := hemits'.exists_headerNames
  have hfile : "final_predictor_a10.h" ∈ BaseName.files "a" 11 := by decide +kernel
  have hfile' : "final_predictor_a10.h" ∈ BaseName.files "a1" 1 := by decide +kernel
  refine ⟨⟨artifacts, artifacts', hemits, hemits', by decide, ?_, ?_⟩,
    ⟨by decide, by decide, hfile, hfile', by decide +kernel, by decide +kernel⟩, ?_⟩
  · rw [hnames.guards]
    decide +kernel
  · rw [hnames'.guards]
    decide +kernel
  · intro hall
    have hseparate := hall "a" "a1" (by decide) (by decide) (by decide) (List.replicate 11 1) [1]
    exact hseparate.files hfile hfile'

end Run

end ClauseTriage
