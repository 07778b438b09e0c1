import ClauseTriage.Proofs.Cluster.Labels
import ClauseTriage.Proofs.Double.Squares
import ClauseTriage.Proofs.Source.RouterText

/-!
# Generated routers route as their centers

The set-up fills one record for each center, the distance sums squares over the members in order, and
every round of the scan keeps the invariant that its two variables are what the scan over the centers
has kept so far.
-/
namespace ClauseTriage.Source

open Accessor Code

section SetUp

variable {members : List String}

/-- The members of a record hold the coordinates of a point. -/
def Holds (r : Record) (members : List String) (point : List Float) : Prop :=
  List.Forall₂ (fun m x => r m = some x) members point

/-- A record whose members are set one after the other. -/
def fill (r : Record) (pairs : List (String × Float)) : Record :=
  pairs.foldl (fun r pair => r.set pair.1 pair.2) r

theorem fill_of_notMem {m : String} (pairs : List (String × Float)) (r : Record)
    (h : m ∉ pairs.map Prod.fst) : fill r pairs m = r m := by
  induction pairs generalizing r with
  | nil => rfl
  | cons pair pairs ih =>
    rw [List.map_cons, List.mem_cons, not_or] at h
    rw [fill, List.foldl_cons, ← fill, ih _ h.2, Record.set, if_neg h.1]

/-- Distinct members keep what they are set to. -/
theorem holds_fill {point : List Float} (hdistinct : members.Nodup)
    (hlength : members.length = point.length) (r : Record) :
    Holds (fill r (members.zip point)) members point := by
  induction members generalizing point r with
  | nil =>
    obtain rfl := List.length_eq_zero_iff.1 hlength.symm
    exact .nil
  | cons m members ih =>
    obtain ⟨x, point, rfl⟩ := List.exists_cons_of_length_eq_add_one hlength.symm
    obtain ⟨hm, hrest⟩ := List.nodup_cons.1 hdistinct
    have hkeys : m ∉ (members.zip point).map Prod.fst := fun hmem =>
      hm (by
        obtain ⟨pair, hpair, rfl⟩ := List.mem_map.1 hmem
        exact (List.of_mem_zip hpair).1)
    rw [List.zip_cons_cons, fill, List.foldl_cons, ← fill]
    apply List.Forall₂.cons ?_ (ih hrest (by simpa using hlength) _)
    rw [fill_of_notMem _ _ hkeys, Record.set, if_pos rfl]

/-- The stores of one center fill its record and leave the others as they are. -/
theorem run?_storesAt (done rest : List Record) (r : Record) (pairs : List (String × Float)) :
    (pairs.map fun pair => Store.mk done.length pair.1 pair.2).foldlM Store.run?
      (done ++ r :: rest) = some (done ++ fill r pairs :: rest) := by
  induction pairs generalizing r with
  | nil => rfl
  | cons pair pairs ih =>
    have hstep : Store.run? (done ++ r :: rest) ⟨done.length, pair.1, pair.2⟩ =
        some (done ++ r.set pair.1 pair.2 :: rest) := by
      simp [Store.run?]
    rw [List.map_cons, List.foldlM_cons, hstep]
    exact ih _

/-- The set-up fills the records of all centers. -/
theorem run?_stores (done : List Record) (centers : List (List Float)) :
    ((centers.zipIdx done.length).flatMap (storesAt members)).foldlM Store.run?
      (done ++ List.replicate centers.length fun _ => none) =
        some (done ++ centers.map fun center => fill (fun _ => none) (members.zip center)) := by
  induction centers generalizing done with
  | nil => rfl
  | cons center centers ih =>
    rw [List.zipIdx_cons, List.flatMap_cons, List.foldlM_append, List.length_cons,
      List.replicate_succ, storesAt, run?_storesAt]
    have hnext := ih (done ++ [fill (fun _ => none) (members.zip center)])
    rw [List.length_append, List.length_singleton, List.append_assoc, List.append_assoc] at hnext
    exact hnext

end SetUp

section Distance

/-- The code of the router of some centers. -/
def routerCode (members : List String) (centers : List (List Float)) : RouterCode :=
  ⟨centers.length, centers.zipIdx.flatMap (storesAt members), squareBlock, distanceBlock members,
    closestBlock centers.length⟩

variable {members : List String} {centers : List (List Float)}

theorem square?_routerCode (x : Float) : (routerCode members centers).square? x = some (x * x) := by
  simp [routerCode, RouterCode.square?, Block.returns?, squareBlock, Block.run?, Expression.value?,
    Variables.double?]

/-- Sum of squared differences from a start, in order. -/
def sumFrom (start : Float) (pairs : List (Float × Float)) : Float :=
  pairs.foldl (fun sum pair => sum + (pair.1 - pair.2) * (pair.1 - pair.2)) start

/-- The summands are added in the order of the members. -/
theorem run?_sum {σ : Surroundings} {a b : Record} (ha : σ.records "a" = some a)
    (hb : σ.records "b" = some b) (hsquare : ∀ x, σ.square x = some (x * x)) {left right : List Float}
    (hleft : Holds a members left) (hright : Holds b members right) {vars : Variables} {start : Float}
    (hstart : vars "dist" = some (.double start)) :
    (members.foldr (fun member => Block.step (.addSquare "dist" "a" "b" member))
      (.result (.read "dist"))).run? σ vars =
        some (.returned (.double (sumFrom start (left.zip right)))) := by
  induction hleft generalizing right vars start with
  | nil => simp [Block.run?, Expression.value?, hstart, sumFrom]
  | @cons m x members left hm hrest ih =>
    obtain ⟨y, tail, hy, htail, rfl⟩ := List.forall₂_cons_left_iff.1 hright
    have hstep : Step.run? σ vars (.addSquare "dist" "a" "b" m) =
        some (vars.set "dist" (.double (start + (x - y) * (x - y)))) := by
      simp [Step.run?, ha, hb, hm, hy, hsquare, Variables.double?, hstart]
    rw [List.foldr_cons, Block.run?, hstep, Option.bind_eq_bind, Option.bind_some,
      ih htail (Variables.set_same _ _ _)]
    rfl

theorem distance?_routerCode {a b : Record} {left right : List Float} (ha : Holds a members left)
    (hb : Holds b members right) :
    (routerCode members centers).distance? a b = some (sumFrom 0.0 (left.zip right)) := by
  have hzero : Float.ofInt 0 = 0.0 := by decide +kernel
  obtain ⟨σ, hσ⟩ : ∃ σ : Surroundings, σ =
    { records := fun n => if n = "a" then some a else if n = "b" then some b else none
      square := (routerCode members centers).square? } := ⟨_, rfl⟩
  have hdeclare : Step.run? σ (fun _ => none) (.declare .double "dist" (.integer 0)) =
      some (Variables.set (fun _ => none) "dist" (.double 0.0)) := by
    simp [Step.run?, Expression.value?, Value.as?, hzero]
  have hrun := run?_sum (σ := σ) (by simp [hσ]) (by simp [hσ]) (by simp [hσ, square?_routerCode])
    ha hb (Variables.set_same (fun _ => none) "dist" (.double 0.0))
  have hreturns : (distanceBlock members).returns? σ (fun _ => none) =
      some (.double (sumFrom 0.0 (left.zip right))) := by
    rw [Block.returns?, distanceBlock, Block.run?, hdeclare, Option.bind_eq_bind, Option.bind_some,
      hrun]
  have hblock : (routerCode members centers).distance = distanceBlock members := rfl
  rw [RouterCode.distance?, hblock, ← hσ, hreturns]

end Distance

section Scan

variable {σ : Surroundings} {point : Record}

/-- One round of the written scan: a later distance wins only when it is less. -/
def keepNearer (best : Float × Int) (entry : Float × Nat) : Float × Int :=
  if entry.1 < best.1 then (entry.1, entry.2) else best

/-- The variables of the scan hold the best distance so far and its index. -/
def Keeps (vars : Variables) (best : Float × Int) : Prop :=
  vars "closest_dist" = some (.double best.1) ∧ vars "closest" = some (.int best.2)

/-- A round keeps the better of the best so far and the distance to its center. -/
theorem run?_roundBlock {center : Record} {index : Nat} {distance : Float} {best : Float × Int}
    {vars : Variables} (hcenter : σ.stored[index]? = some center)
    (hpoint : σ.records "p" = some point) (hdistance : σ.distance center point = some distance)
    (hvars : Keeps vars best) :
    ∃ after, roundBlock.run? σ (vars.set "i" (.int index)) = some (.ran after) ∧
      after "i" = some (.int index) ∧ Keeps after (keepNearer best (distance, index)) := by
  obtain ⟨hbest, hclosest⟩ := hvars
  have hdeclare : Step.run? σ (vars.set "i" (.int index))
      (.declare .double "dist" (.distance "i" "p")) =
        some ((vars.set "i" (.int index)).set "dist" (.double distance)) := by
    have hvalue : Expression.value? σ (vars.set "i" (.int index)) (.distance "i" "p") =
        some (.double distance) := by
      rw [Expression.value?, Variables.set_same]
      change (do return Value.double (← σ.distance (← σ.stored[index]?) (← σ.records "p"))) = _
      rw [hcenter, hpoint]
      simp [hdistance]
    simp [Step.run?, hvalue, Value.as?]
  rw [roundBlock, Block.run?, hdeclare, Option.bind_eq_bind, Option.bind_some]
  by_cases hless : distance < best.1
  · refine ⟨((((vars.set "i" (.int index)).set "dist" (.double distance)).set "closest_dist"
      (.double distance)).set "closest" (.int index)), ?_, ?_, ?_⟩
    · simp [Block.run?, Step.run?, Expression.value?, Variables.double?, Variables.set, Value.as?,
        Value.type, hbest, hclosest, hless]
    · simp [Variables.set]
    · simp [Keeps, keepNearer, Variables.set, hless]
  · refine ⟨(vars.set "i" (.int index)).set "dist" (.double distance), ?_, ?_, ?_⟩
    · simp [Block.run?, Variables.double?, Variables.set, hbest, hless]
    · simp [Variables.set]
    · simp [Keeps, keepNearer, Variables.set, hless, hbest, hclosest]

/-- The rounds of the scan, from any of them on. -/
theorem runRounds?_roundBlock (hpoint : σ.records "p" = some point) {distances : List Float}
    (done : List Record) {todo : List Record} (hstored : σ.stored = done ++ todo)
    (hdistances : List.Forall₂ (fun center d => σ.distance center point = some d) todo distances)
    {best : Float × Int} {vars : Variables} (hvars : Keeps vars best) :
    ∃ after, runRounds? (fun vars => roundBlock.run? σ vars) "i" todo.length done.length vars =
        some (.ran after) ∧
      Keeps after ((distances.zipIdx done.length).foldl keepNearer best) := by
  induction hdistances generalizing done best vars with
  | nil => exact ⟨vars, rfl, hvars⟩
  | @cons center d todo distances hd hrest ih =>
    have hcenter : σ.stored[done.length]? = some center := by simp [hstored]
    obtain ⟨next, hrun, hcounter, hnext⟩ := run?_roundBlock hcenter hpoint hd hvars
    obtain ⟨after, hafter, hkeeps⟩ := ih (done ++ [center]) (by simp [hstored]) hnext
    rw [List.length_append, List.length_singleton] at hafter hkeeps
    refine ⟨after, ?_, hkeeps⟩
    rw [List.length_cons, runRounds?, hrun]
    simp only [Option.bind_eq_bind, Option.bind_some]
    rw [if_pos hcounter, hafter]

/-- The whole scan returns the index that its rounds end with. -/
theorem returns?_closestBlock (hpoint : σ.records "p" = some point) {distances : List Float}
    (hdistances : List.Forall₂ (fun center d => σ.distance center point = some d) σ.stored
      distances) :
    (closestBlock σ.stored.length).returns? σ (fun _ => none) =
      some (.int (distances.zipIdx.foldl keepNearer (largestDouble, -1)).2) := by
  obtain ⟨start, hstart⟩ : ∃ start : Variables, start =
    (Variables.set (fun _ => none) "closest_dist" (.double largestDouble)).set "closest"
      (.int (-1)) := ⟨_, rfl⟩
  have hkeeps : Keeps start (largestDouble, -1) := by simp [Keeps, hstart, Variables.set]
  obtain ⟨after, hrounds, -, hclosest⟩ :=
    runRounds?_roundBlock hpoint [] rfl hdistances hkeeps
  have hlargest : Step.run? σ (fun _ => none) (.declare .double "closest_dist" .largest) =
      some (Variables.set (fun _ => none) "closest_dist" (.double largestDouble)) := by
    simp [Step.run?, Expression.value?, Value.as?]
  have hnone : Step.run? σ (Variables.set (fun _ => none) "closest_dist" (.double largestDouble))
      (.declare .int "closest" (.integer (-1))) = some start := by
    simp [Step.run?, Expression.value?, Value.as?, hstart]
  rw [Block.returns?, closestBlock, Block.run?, hlargest, Option.bind_eq_bind, Option.bind_some,
    Block.run?, hnone, Option.bind_eq_bind, Option.bind_some, Block.run?]
  rw [List.length_nil] at hrounds
  rw [hrounds]
  simp [Block.run?, Expression.value?, hclosest]

end Scan

section Router

variable {members : List String} {centers : List (List Float)}

theorem centers?_routerCode : (routerCode members centers).centers? =
    some (centers.map fun center => fill (fun _ => none) (members.zip center)) :=
  run?_stores [] centers

/-- What the code of a router returns, in terms of the coordinates of centers and point. -/
theorem closest?_routerCode {record : Record} {point : List Float} (hdistinct : members.Nodup)
    (hcenters : ∀ center ∈ centers, members.length = center.length)
    (hpoint : Holds record members point) :
    (routerCode members centers).closest? record =
      some ((centers.map fun center => sumFrom 0.0 (center.zip point)).zipIdx.foldl keepNearer
        (largestDouble, -1)).2 := by
  obtain ⟨σ, hσ⟩ : ∃ σ : Surroundings, σ =
    { records := fun n => if n = "p" then some record else none
      stored := centers.map fun center => fill (fun _ => none) (members.zip center)
      distance := (routerCode members centers).distance? } := ⟨_, rfl⟩
  have hdistances : List.Forall₂ (fun center d => σ.distance center record = some d) σ.stored
      (centers.map fun center => sumFrom 0.0 (center.zip point)) := by
    rw [hσ, List.forall₂_map_left_iff, List.forall₂_map_right_iff, List.forall₂_same]
    intro center hcenter
    exact distance?_routerCode (holds_fill hdistinct (hcenters center hcenter) _) hpoint
  have hreturns := returns?_closestBlock (by simp [hσ]) hdistances
  have hblock : (routerCode members centers).closest = closestBlock σ.stored.length := by
    rw [hσ, List.length_map]
    rfl
  rw [RouterCode.closest?, centers?_routerCode, hblock]
  simp only [Option.bind_eq_bind, Option.bind_some]
  rw [← hσ, hreturns]
  rfl

/-- Two distances that are compared alike with all others of their kind. -/
structure Alike (related : Float → Float → Prop) : Prop where
  less : ∀ {d e d' e'}, related d e → related d' e' → (d < d' ↔ e < e')
  largest : ∀ {d e}, related d e → (d < largestDouble ↔ e < largestDouble)

/-- The best of the written scan stands for that of the scan over the centers. -/
def StandsFor (related : Float → Float → Prop) (best : Float × Int) : Option (Nat × Float) → Prop
  | none => best = (largestDouble, -1)
  | some (i, e) => best.2 = i ∧ related best.1 e

theorem standsFor_keepNearer {related : Float → Float → Prop} (h : Alike related)
    {best : Float × Int} {kept : Option (Nat × Float)} (hbest : StandsFor related best kept)
    {d e : Float} (hde : related d e) (index : Nat) :
    StandsFor related (keepNearer best (d, index)) (nearer kept (e, index)) := by
  cases kept with
  | none =>
    obtain rfl : best = (largestDouble, -1) := hbest
    have hbelow : Scalar.belowLargest e = decide (e < largestDouble) := rfl
    have hlargest := h.largest hde
    by_cases hless : d < largestDouble
    · have hless' := hlargest.1 hless
      simp [keepNearer, nearer, hbelow, hless, hless', StandsFor, hde]
    · have hless' := mt hlargest.2 hless
      simp [keepNearer, nearer, hbelow, hless, hless', StandsFor]
  | some kept =>
    obtain ⟨hindex, hrelated⟩ := hbest
    have hlt : Scalar.lt e kept.2 = decide (e < kept.2) := rfl
    have hiff := h.less hde hrelated
    by_cases hless : d < best.1
    · have hless' := hiff.1 hless
      simp [keepNearer, nearer, hlt, hless, hless', StandsFor, hde]
    · have hless' := mt hiff.2 hless
      simp [keepNearer, nearer, hlt, hless, hless', StandsFor, hindex, hrelated]

/-- The written scan and the scan over the centers end alike. -/
theorem standsFor_foldl {related : Float → Float → Prop} (h : Alike related) {ds es : List Float}
    (hds : List.Forall₂ related ds es) (start : Nat) {best : Float × Int}
    {kept : Option (Nat × Float)} (hbest : StandsFor related best kept) :
    StandsFor related ((ds.zipIdx start).foldl keepNearer best)
      ((es.zipIdx start).foldl nearer kept) := by
  induction hds generalizing start best kept with
  | nil => exact hbest
  | cons hde hrest ih => exact ih (start + 1) (standsFor_keepNearer h hbest hde start)

/-- The index of no center is minus one. -/
def indexOf : Option Nat → Int
  | none => -1
  | some i => i

theorem foldl_keepNearer_index {related : Float → Float → Prop} (h : Alike related)
    {ds es : List Float} (hds : List.Forall₂ related ds es) :
    (ds.zipIdx.foldl keepNearer (largestDouble, -1)).2 = indexOf (leastIndex? es) := by
  have hends := standsFor_foldl h hds 0 (show StandsFor related (largestDouble, -1) none from rfl)
  rw [leastIndex?]
  cases hkept : es.zipIdx.foldl nearer none with
  | none =>
    rw [hkept] at hends
    rw [show ds.zipIdx.foldl keepNearer (largestDouble, -1) = (largestDouble, -1) from hends]
    rfl
  | some kept =>
    rw [hkept] at hends
    exact hends.1

theorem alike_eq : Alike (fun d e => d = e) where
  less := by
    rintro d _ d' _ rfl rfl
    exact Iff.rfl
  largest := by
    rintro d _ rfl
    exact Iff.rfl

/-- The two zeros compare alike. -/
theorem alike_zeros : Alike fun d e => d = 0.0 ∧ e = -0.0 where
  less := by
    rintro d e d' e' ⟨rfl, rfl⟩ ⟨rfl, rfl⟩
    decide +kernel
  largest := by
    rintro d e ⟨rfl, rfl⟩
    decide +kernel

/-- The distance between points is the sum from minus zero. -/
theorem squaredDistance_eq (left right : List Float) :
    squaredDistance left right = sumFrom (-0.0) (left.zip right) := by
  rw [squaredDistance, Scalar.sum, sumFrom, ← List.map_uncurry_zip_eq_zipWith, List.foldl_map]
  rfl

/-- A sum of squares that has a summand is the same from both zeros. -/
theorem sumFrom_zero {pairs : List (Float × Float)} (h : pairs ≠ []) :
    sumFrom 0.0 pairs = sumFrom (-0.0) pairs := by
  obtain ⟨pair, pairs, rfl⟩ := List.exists_cons_of_ne_nil h
  rw [sumFrom, List.foldl_cons, Double.zero_add_square]
  rfl

/-- The written distances compare as those of the centers do. -/
theorem exists_alike {point : List Float} (hcenters : ∀ center ∈ centers, center.length = point.length) :
    ∃ related, Alike related ∧
      List.Forall₂ related (centers.map fun center => sumFrom 0.0 (center.zip point))
        (centers.map fun center => squaredDistance center point) := by
  simp only [List.forall₂_map_left_iff, List.forall₂_map_right_iff, List.forall₂_same,
    squaredDistance_eq]
  by_cases hpoint : point = []
  · refine ⟨_, alike_zeros, fun center _ => ?_⟩
    rw [hpoint, List.zip_nil_right]
    exact ⟨rfl, rfl⟩
  · refine ⟨_, alike_eq, fun center hcenter => ?_⟩
    apply sumFrom_zero
    intro hempty
    have hlength := congrArg List.length hempty
    rw [List.length_zip, hcenters center hcenter, Nat.min_self, List.length_nil] at hlength
    exact hpoint (List.length_eq_zero_iff.1 hlength)

end Router

section Header

variable {r : Router}

theorem allOneLine_centerLines (hmembers : ∀ m ∈ r.members, OneLine m) {entry : List Float × Nat}
    (hfinite : ∀ x ∈ entry.1, x.isFinite = true) :
    AllOneLine (Router.centerLines r.members entry.2 entry.1) := by
  have htexts : OneLine "" ∧ OneLine "// center " ∧ OneLine "center[" ∧ OneLine "]." ∧
      OneLine " = " ∧ OneLine ";" := by
    and_intros <;> exact oneLine_ofList (by decide)
  simp only [Router.centerLines, allOneLine_cons, allOneLine_map, oneLine_append, Line.blank, htexts,
    (word_nat entry.2).oneLine, true_and, and_true]
  intro pair hpair
  obtain ⟨hmember, hvalue⟩ := List.of_mem_zip hpair
  exact ⟨hmembers _ hmember, oneLine_literal (hfinite _ hvalue)⟩

/-- A class breaks lines only between its lines. -/
theorem allOneLine_router (hclass : OneLine r.className) (hrecord : OneLine r.record)
    (hmembers : ∀ m ∈ r.members, OneLine m)
    (hfinite : ∀ center ∈ r.centers, ∀ x ∈ center, x.isFinite = true) : AllOneLine r.lines := by
  have hcount : OneLine (Text.nat r.centers.length) := (word_nat _).oneLine
  have hsetUp : AllOneLine r.setUpLines := by
    simp only [Router.setUpLines, allOneLine_append, allOneLine_cons, allOneLine_nil,
      allOneLine_flatMap, and_true]
    and_intros
    · exact oneLine_ofList (by decide)
    · intro entry hentry
      exact allOneLine_centerLines hmembers (hfinite _ (List.fst_mem_of_mem_zipIdx hentry))
    · exact oneLine_ofList (by decide)
    · exact oneLine_ofList (by decide)
  have hsquare : AllOneLine Router.squareLines := by
    simp only [Router.squareLines, allOneLine_cons, allOneLine_nil]
    and_intros <;> first | exact oneLine_ofList (by decide) | trivial
  have hdistance : AllOneLine r.distanceLines := by
    have hsum : OneLine "dist+=sq(a." ∧ OneLine "-b." ∧ OneLine ");" := by
      and_intros <;> exact oneLine_ofList (by decide)
    simp only [Router.distanceLines, allOneLine_append, allOneLine_cons, allOneLine_nil,
      allOneLine_map, oneLine_append, hrecord, hsum, true_and, and_true]
    and_intros
    · exact oneLine_ofList (by decide)
    · exact oneLine_ofList (by decide)
    · exact oneLine_ofList (by decide)
    · exact oneLine_ofList (by decide)
    · intro m hm
      exact ⟨hmembers m hm, hmembers m hm⟩
    all_goals exact oneLine_ofList (by decide)
  have hclosest : AllOneLine r.closestLines := by
    simp only [Router.closestLines, allOneLine_cons, allOneLine_nil, oneLine_append, hrecord, hcount,
      and_true]
    and_intros <;> exact oneLine_ofList (by decide)
  simp only [Router.lines, allOneLine_append, allOneLine_cons, allOneLine_nil, oneLine_append,
    Line.flush, Line.blank, hclass, hrecord, hcount, hsetUp, hsquare, hdistance, hclosest, true_and,
    and_true]
  and_intros <;> exact oneLine_ofList (by decide)

end Header

section Routes

/-- The code of a router is written for finite centers and names of as many distinct members, and on
every record that holds a point it returns the index of the center to which the point belongs, or
minus one where it belongs to none. Members and the texts of the host in it are without line
breaks. -/
theorem compileRouter?_routes (c : Centroids Float) (names : List String) (base : String)
    (host : Host) (hfinite : ∀ center ∈ c.centers, ∀ x ∈ center, x.isFinite = true)
    (hnames : names.length = c.dimension) (hdistinct : (Resolver.shape.resolveAll names).Nodup)
    (hmembers : ∀ m ∈ Resolver.shape.resolveAll names, OneLine m)
    (hbase : BaseName.isValid base = true) (hscope : OneLine host.scope)
    (hrecord : OneLine host.shapeRecord) (hinclude : OneLine host.shapeInclude) :
    ∃ artifact code, compileRouter? c names c.count base host = .ok artifact ∧
      readRouter? host.shapeRecord (linesOf artifact.text) = some code ∧
      ∀ (point : List Float) (record : Record),
        Holds record (Resolver.shape.resolveAll names) point →
          code.closest? record = some (indexOf (c.closest? point)) := by
  obtain ⟨members, hresolved⟩ : ∃ ms, Resolver.shape.resolveAll names = ms := ⟨_, rfl⟩
  rw [hresolved] at hdistinct hmembers
  obtain ⟨r, hr⟩ : ∃ r : Router, r = ⟨BaseName.routerClass base, host.shapeRecord, members,
    c.centers⟩ := ⟨_, rfl⟩
  have hcompile : compileRouter? c names c.count base host =
      .ok ⟨BaseName.routerFile base, [r.className], (r.header base host).text⟩ := by
    have hcount : c.count ≠ 0 := by
      rw [Centroids.count, Ne, List.length_eq_zero_iff]
      exact c.nonempty
    rw [compileRouter?, CodeError.checkBase, BaseName.check, if_pos hbase, hr, hresolved]
    simp [hcount, hnames]
  have hclass : r.className.toList.head? = some 'C' := by
    simp [hr, BaseName.routerClass]
  have hword : Word "Clustering_" := word_ofList (by decide)
  have hlines : AllOneLine r.lines := by
    rw [hr]
    exact allOneLine_router (hword.append (word_of_isValid hbase)).oneLine hrecord hmembers hfinite
  have hkind : OneLine "CLUSTERING" := oneLine_ofList (by decide)
  have hsystem : OneLine "cmath" ∧ OneLine "limits" := by
    and_intros <;> exact oneLine_ofList (by decide)
  have hheader : AllOneLine (r.header base host).lines :=
    allOneLine_header (by simp [Router.header])
      (oneLine_guard hkind (word_of_isValid hbase).oneLine) (by simpa [Router.header] using hinclude)
      (by simpa [Router.header] using hsystem) hscope hlines
  have htext : (r.header base host).text = render (r.header base host).lines := by
    simp only [Header.text]
  have hread : readRouter? host.shapeRecord ((r.header base host).lines.map raw) =
      some (routerCode members c.centers) := by
    have := @readRouter?_header r base host hclass (by simpa [hr] using hfinite)
    rw [hr] at this ⊢
    exact this
  refine ⟨_, _, hcompile, by rw [htext, linesOf_render hheader, hread], fun point record hpoint => ?_⟩
  rw [hresolved] at hpoint
  have hlength : members.length = c.dimension := by
    rw [← hresolved, Resolver.resolveAll, List.length_map, hnames]
  have hcenters : ∀ center ∈ c.centers, center.length = point.length := fun center hcenter => by
    rw [c.uniform center hcenter, ← hpoint.length_eq, hlength, Centroids.dimension]
  obtain ⟨related, halike, hdistances⟩ := exists_alike hcenters
  rw [closest?_routerCode hdistinct (fun center hcenter => hpoint.length_eq.trans
    (hcenters center hcenter).symm) hpoint, foldl_keepNearer_index halike hdistances]
  rfl

/-- Two of three centers at the same place: the first of them wins, and a record that holds no number
is sent nowhere. -/
theorem compileRouter?_routes_three :
    ∃ (c : Centroids Float) (artifact : Artifact) (code : RouterCode),
      c.centers = [[0.0, 1.0], [4.0, 2.0], [4.0, 2.0]] ∧
      compileRouter? c ["szfeat_cur.density", "red_glue"] 3 "short" {} = .ok artifact ∧
      readRouter? "SatZillaFeatures" (linesOf artifact.text) = some code ∧
      (∀ record : Record, Holds record ["density", "red_cl_distrib.glue"] [3.0, 2.0] →
        code.closest? record = some 1) ∧
      ∀ record : Record, Holds record ["density", "red_cl_distrib.glue"] [0.0, 0.0 / 0.0] →
        code.closest? record = some (-1) := by
  have hresolved : Resolver.shape.resolveAll ["szfeat_cur.density", "red_glue"] =
      ["density", "red_cl_distrib.glue"] := by decide +kernel
  obtain ⟨c, hc⟩ : ∃ c : Centroids Float, c = ⟨[[0.0, 1.0], [4.0, 2.0], [4.0, 2.0]], by simp,
    by simp⟩ := ⟨_, rfl⟩
  obtain ⟨artifact, code, hcompile, hread, hroutes⟩ :=
    compileRouter?_routes c ["szfeat_cur.density", "red_glue"] "short" {}
      (by rw [hc]; decide +kernel) (by rw [hc]; rfl) (by decide +kernel) (by decide +kernel)
      (by decide +kernel) (by decide +kernel) (by decide +kernel) (by decide +kernel)
  have hfirst : indexOf (c.closest? [3.0, 2.0]) = 1 := by
    rw [hc]
    decide +kernel
  have hnowhere : indexOf (c.closest? [0.0, 0.0 / 0.0]) = -1 := by
    rw [hc]
    decide +kernel
  rw [hresolved] at hroutes
  refine ⟨c, artifact, code, by rw [hc], by rw [← hcompile, hc]; rfl, hread, fun record hrecord => ?_,
    fun record hrecord => ?_⟩
  · rw [hroutes _ record hrecord, hfirst]
  · rw [hroutes _ record hrecord, hnowhere]

end Routes

end ClauseTriage.Source
