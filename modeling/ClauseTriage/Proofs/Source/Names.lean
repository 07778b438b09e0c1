import ClauseTriage.Proofs.Source.Dispatch

/-!
# Names made from a base

A header set glues its names from a base, decimal numbers and fixed words. Within one set no two
names are equal. Between the sets of two bases, names are equal exactly where the bases are, or
where a base with the number of one of its clusters reads as the other base with such a number;
guards do not tell the case of letters.
-/
namespace ClauseTriage.BaseName

open Text Source Decimal

section Texts

variable {s t : String}

/-- Neither text begins with the other one. -/
def Apart (s t : String) : Prop := ¬s.toList <+: t.toList ∧ ¬t.toList <+: s.toList

instance (s t : String) : Decidable (Apart s t) := inferInstanceAs (Decidable (_ ∧ _))

theorem Apart.symm (h : Apart s t) : Apart t s := And.symm h

/-- Whatever follows them, texts that are apart stay different. -/
theorem Apart.append_ne (h : Apart s t) (u v : String) : s ++ u ≠ t ++ v := by
  intro heq
  have hlist : s.toList ++ u.toList = t.toList ++ v.toList := by
    rw [← String.toList_append, heq, String.toList_append]
  have hs : s.toList <+: t.toList ++ v.toList := hlist ▸ List.prefix_append _ _
  exact (List.prefix_or_prefix_of_prefix hs (List.prefix_append _ _)).elim h.1 h.2

/-- A text in capitals. -/
def upper (s : String) : String := String.ofList (s.toList.map Char.toUpper)

theorem upper_append (s t : String) : upper (s ++ t) = upper s ++ upper t := by
  rw [upper, String.toList_append, List.map_append, String.ofList_append]
  rfl

/-- Digits have no case. -/
theorem upper_nat (n : ℕ) : upper (nat n) = nat n := by
  have hdigits : ∀ c ∈ digitsOf n, c.toUpper = c := by
    intro c hc
    have hdigit := isDigit_of_mem_digitsOf hc
    rw [Char.isDigit, Bool.and_eq_true, decide_eq_true_eq, decide_eq_true_eq] at hdigit
    rw [Char.toUpper, dif_neg]
    intro hlower
    exact absurd (UInt32.le_trans hlower.1 hdigit.2) (by decide)
  rw [upper, toList_nat, List.map_congr_left hdigits, List.map_id']
  rfl

/-- What stands before the last underscore and the number behind it are known from a text. -/
theorem append_underscore_nat_inj {i j : ℕ} :
    s ++ "_" ++ nat i = t ++ "_" ++ nat j ↔ s = t ∧ i = j := by
  constructor
  · intro h
    -- read from its end, the text has its digits up to the first underscore
    have hcut (x : String) (n : ℕ) : cutAt? '_' (x ++ "_" ++ nat n).toList.reverse =
        some ((nat n).toList.reverse, x.toList.reverse) := by
      have hdigits : '_' ∉ (nat n).toList.reverse := by
        rw [toList_nat, List.mem_reverse]
        exact fun hmem => absurd (isDigit_of_mem_digitsOf hmem) (by decide)
      rw [← cutAt?_append hdigits]
      simp
    have hparts := hcut s i
    rw [h, hcut t j, Option.some.injEq, Prod.mk.injEq, List.reverse_inj, List.reverse_inj,
      String.toList_inj, String.toList_inj] at hparts
    exact ⟨hparts.2.symm, (nat_injective hparts.1).symm⟩
  · rintro ⟨rfl, rfl⟩
    rfl

/-- No number ends as a word does whose last character is not a digit. -/
theorem append_nat_ne {word : String} {c : Char} (hlast : word.toList.getLast? = some c)
    (hc : c.isDigit = false) (n : ℕ) : s ++ nat n ≠ t ++ word := by
  intro h
  have hlist := congrArg (fun x => x.toList.getLast?) h
  simp only [String.toList_append, toList_nat, List.getLast?_append, hlast, Option.some_or,
    List.getLast?_eq_getLast_of_ne_nil (digitsOf_ne_nil n), Option.some.injEq] at hlist
  have hdigit := isDigit_of_mem_digitsOf (List.getLast_mem (digitsOf_ne_nil n))
  rw [hlist, hc] at hdigit
  cases hdigit

end Texts

/-! ## Bases with a number behind them -/

section Numbers

variable {b b' : String}

/-- A number with a digit behind it. -/
theorem nat_mul_ten (n : ℕ) (hn : 0 < n) : nat (10 * n) = nat n ++ nat 0 := by
  rw [← String.toList_inj, String.toList_append, toList_nat, toList_nat, toList_nat]
  have hbase : 1 < 10 := by decide
  have hdigit : 0 < 10 := by decide
  exact (Nat.toDigits_append_toDigits hbase hn hdigit).symm

/-- The first digits of a number are those of a number. -/
theorem exists_digitsOf_of_append {front back : List Char} {n : ℕ} (hfront : front ≠ [])
    (hback : back ≠ []) (h : digitsOf n = front ++ back) : ∃ k, 0 < k ∧ front = digitsOf k := by
  induction back using List.reverseRecOn generalizing n with
  | nil => exact absurd rfl hback
  | append_singleton back c ih =>
    rw [digitsOf, Nat.toDigits_eq_if (by decide)] at h
    split at h
    · have hlength := congrArg List.length h
      have hpositive := List.length_pos_of_ne_nil hfront
      simp only [List.length_append, List.length_singleton] at hlength
      omega
    · rw [← List.append_assoc] at h
      have hrest : digitsOf (n / 10) = front ++ back := (List.append_inj' h rfl).1
      by_cases hnil : back = []
      · subst hnil
        exact ⟨n / 10, by omega, (hrest.trans (List.append_nil _)).symm⟩
      · exact ih hnil hrest

theorem exists_nat_of_append {s : String} {n m : ℕ} (hs : s ≠ "") (h : nat n = s ++ nat m) :
    ∃ k, 0 < k ∧ s = nat k := by
  have hlist : digitsOf n = s.toList ++ digitsOf m := by
    rw [← toList_nat, h, String.toList_append, toList_nat]
  have hfront : s.toList ≠ [] := fun hnil => hs (String.toList_inj.1 hnil)
  obtain ⟨k, hk, hdigits⟩ := exists_digitsOf_of_append hfront (digitsOf_ne_nil m) hlist
  exact ⟨k, hk, String.toList_inj.1 (hdigits.trans (toList_nat k).symm)⟩

/-- A base of the first set with the number of one of its clusters reads as a base of the second
with such a number. -/
def Meets (b b' : String) (clusters clusters' : ℕ) : Prop :=
  ∃ c < clusters, ∃ c' < clusters', b ++ nat c = b' ++ nat c'

instance (b b' : String) (clusters clusters' : ℕ) : Decidable (Meets b b' clusters clusters') :=
  inferInstanceAs (Decidable (∃ c < clusters, ∃ c' < clusters', _))

/-- With enough clusters two bases meet when one is the other with a number behind it. -/
theorem exists_meets_iff (hne : b ≠ b') :
    (∃ clusters clusters', Meets b b' clusters clusters') ↔
      ∃ n, 0 < n ∧ (b' = b ++ nat n ∨ b = b' ++ nat n) := by
  -- of two bases that meet, the longer one has digits of the other's number at its end
  have hlonger {b b' : String} {c c' : ℕ} (hne : b ≠ b') (hle : b.toList.length ≤ b'.toList.length)
      (h : b ++ nat c = b' ++ nat c') : ∃ n, 0 < n ∧ b' = b ++ nat n := by
    have hlist : b.toList ++ (nat c).toList = b'.toList ++ (nat c').toList := by
      rw [← String.toList_append, h, String.toList_append]
    obtain ⟨rest, hrest⟩ := List.prefix_of_prefix_length_le (hlist ▸ List.prefix_append _ _)
      (List.prefix_append _ _) hle
    have hb' : b' = b ++ String.ofList rest := by
      rw [← String.toList_inj, String.toList_append, String.toList_ofList, hrest]
    rw [hb', String.append_assoc, String.append_right_inj] at h
    have hsome : String.ofList rest ≠ "" := by
      intro hnil
      rw [hnil, String.append_empty] at hb'
      exact hne hb'.symm
    obtain ⟨n, hn, hnat⟩ := exists_nat_of_append hsome h
    exact ⟨n, hn, hnat ▸ hb'⟩
  -- the next digit is the number of the first cluster
  have hmeet {b : String} {n : ℕ} (hn : 0 < n) : b ++ nat (10 * n) = b ++ nat n ++ nat 0 := by
    rw [nat_mul_ten n hn, String.append_assoc]
  constructor
  · rintro ⟨clusters, clusters', c, -, c', -, h⟩
    rcases le_total b.toList.length b'.toList.length with hle | hle
    · obtain ⟨n, hn, heq⟩ := hlonger hne hle h
      exact ⟨n, hn, .inl heq⟩
    · obtain ⟨n, hn, heq⟩ := hlonger hne.symm hle h.symm
      exact ⟨n, hn, .inr heq⟩
  · rintro ⟨n, hn, rfl | rfl⟩
    · exact ⟨10 * n + 1, 1, 10 * n, Nat.lt_succ_self _, 0, Nat.one_pos, hmeet hn⟩
    · exact ⟨1, 10 * n + 1, 0, Nat.one_pos, 10 * n, Nat.lt_succ_self _, (hmeet hn).symm⟩

end Numbers

/-! ## The names of a header set -/

/-- The headers of a set. -/
inductive HeaderKind where
  | router
  | predictor (cluster : ℕ)
  | dispatch
  deriving DecidableEq

/-- What the headers of a set declare. -/
inductive Declaration where
  | routerClass
  | member (cluster index : ℕ)
  | tally (cluster : ℕ)
  | functionType
  | table
  deriving DecidableEq

namespace HeaderKind

variable {b b' : String} {x y : HeaderKind}

/-- The headers of so many clusters. -/
def all (clusters : ℕ) : List HeaderKind :=
  router :: (List.range clusters).map predictor ++ [dispatch]

def file (base : String) : HeaderKind → String
  | router => routerFile base
  | predictor c => predictorFile base c
  | dispatch => dispatchFile base

def guard (base : String) : HeaderKind → String
  | router => routerGuard base
  | predictor c => predictorGuard (BaseName.predictor base c)
  | dispatch => dispatchGuard base

/-- Headers of one kind, where bases with the numbers of clusters behind them read the same. -/
def Same (b b' : String) : HeaderKind → HeaderKind → Prop
  | router, router => b = b'
  | predictor c, predictor c' => b ++ nat c = b' ++ nat c'
  | dispatch, dispatch => b = b'
  | _, _ => False

/-- A name with a front for each kind of header and one back for all. -/
def glue (routerFront predictorFront dispatchFront back base : String) : HeaderKind → String
  | router => routerFront ++ base ++ back
  | predictor c => predictorFront ++ base ++ nat c ++ back
  | dispatch => dispatchFront ++ base ++ back

theorem glue_eq_iff {r p d back : String} (hrp : Apart r p) (hrd : Apart r d) (hpd : Apart p d) :
    glue r p d back b x = glue r p d back b' y ↔ Same b b' x y := by
  cases x <;> cases y
  case router.router => exact (String.append_left_inj _).trans (String.append_right_inj _)
  case dispatch.dispatch => exact (String.append_left_inj _).trans (String.append_right_inj _)
  case predictor.predictor c c' =>
    unfold glue Same
    rw [String.append_left_inj, String.append_assoc, String.append_assoc, String.append_right_inj]
  all_goals
    refine iff_of_false ?_ id
    simp only [glue, String.append_assoc]
  exacts [hrp.append_ne _ _, hrd.append_ne _ _, hrp.symm.append_ne _ _, hpd.append_ne _ _,
    hrd.symm.append_ne _ _, hpd.symm.append_ne _ _]

theorem file_eq_glue (b : String) (x : HeaderKind) :
    x.file b = glue "clustering_" "final_predictor_" "all_predictors_" ".h" b x := by
  cases x <;> rfl

/-- Guards are made from the base in capitals. -/
theorem guard_eq_glue (b : String) (x : HeaderKind) : x.guard b =
    glue "CLUSTERING_" "KEEP_PREDICTOR_SHOULD_KEEP_" "ALL_PREDICTORS_" "_H" (upper b) x := by
  cases x with
  | router => rfl
  | dispatch => rfl
  | predictor c =>
    have hfunction : upper (BaseName.predictor b c) = "SHOULD_KEEP_" ++ upper b ++ nat c := by
      rw [BaseName.predictor, upper_append, upper_append, upper_nat]
      rfl
    change "KEEP_PREDICTOR" ++ "_" ++ upper (BaseName.predictor b c) ++ "_H" = _
    rw [hfunction]
    simp only [glue, ← String.append_assoc]
    rfl

theorem file_eq_iff : x.file b = y.file b' ↔ Same b b' x y := by
  rw [file_eq_glue, file_eq_glue]
  exact glue_eq_iff (by decide) (by decide) (by decide)

theorem guard_eq_iff : x.guard b = y.guard b' ↔ Same (upper b) (upper b') x y := by
  rw [guard_eq_glue, guard_eq_glue]
  exact glue_eq_iff (by decide) (by decide) (by decide)

/-- A base with different numbers behind it reads differently. -/
theorem eq_of_same (h : Same b b x y) : x = y := by
  cases x <;> cases y
  case predictor.predictor c c' =>
    exact congrArg predictor (nat_injective ((String.append_right_inj _).1 h))
  all_goals first | rfl | exact h.elim

theorem nodup_all (clusters : ℕ) : (all clusters).Nodup := by
  have hpredictors : ((List.range clusters).map predictor).Nodup :=
    List.nodup_range.map fun _ _ => predictor.inj
  simp [all, List.nodup_append, hpredictors]

theorem length_all (clusters : ℕ) : (all clusters).length = clusters + 2 := by
  simp [all]

/-- What is named after headers is shared by two sets when their bases meet. -/
theorem disjoint_map_all {f g : HeaderKind → String} (h : ∀ x y, f x = g y ↔ Same b b' x y)
    (clusters clusters' : ℕ) : ((all clusters).map f).Disjoint ((all clusters').map g) ↔
      b ≠ b' ∧ ¬Meets b b' clusters clusters' := by
  simp only [List.disjoint_iff_ne, List.forall_mem_map, ne_eq, h, all, List.forall_mem_append,
    List.forall_mem_cons, List.mem_range, Same, Meets, List.not_mem_nil, false_implies,
    implies_true, and_true, not_false_eq_true, true_and, not_exists, not_and]
  constructor
  · rintro ⟨⟨hne, hpredictors⟩, -⟩
    exact ⟨hne, hpredictors⟩
  · rintro ⟨hne, hpredictors⟩
    exact ⟨⟨hne, hpredictors⟩, hne⟩

end HeaderKind

namespace Declaration

variable {b b' : String} {x y : Declaration}

/-- The members and the tally of a cluster. -/
def ofPredictor (size cluster : ℕ) : List Declaration :=
  (List.range size).map (member cluster) ++ [tally cluster]

/-- What is declared for clusters whose predictors have so many members. -/
def all (members : List ℕ) : List Declaration :=
  routerClass :: members.zipIdx.flatMap (fun (size, cluster) => ofPredictor size cluster) ++
    [functionType, table]

def name (base : String) : Declaration → String
  | routerClass => BaseName.routerClass base
  | member c i => estimator (predictor base c) i
  | tally c => predictor base c
  | functionType => dispatchType base
  | table => dispatchTable base

/-- Declarations of one kind, where bases with the numbers behind them read the same. -/
def Same (b b' : String) : Declaration → Declaration → Prop
  | routerClass, routerClass => b = b'
  | member c i, member c' i' => b ++ nat c = b' ++ nat c' ∧ i = i'
  | tally c, tally c' => b ++ nat c = b' ++ nat c'
  | functionType, functionType => b = b'
  | table, table => b = b'
  | _, _ => False

/-- What a name begins with. -/
def front : Declaration → String
  | routerClass => "Clustering_"
  | member _ _ => "estimator_"
  | tally _ => "should_keep_"
  | functionType => "keep_func_type_"
  | table => "should_keep_"

theorem predictor_eq_iff {c c' : ℕ} :
    predictor b c = predictor b' c' ↔ b ++ nat c = b' ++ nat c' := by
  unfold predictor
  rw [String.append_assoc, String.append_assoc, String.append_right_inj]

theorem exists_name_eq (b : String) (x : Declaration) : ∃ rest, x.name b = x.front ++ rest := by
  cases x with
  | routerClass => exact ⟨_, rfl⟩
  | member c i => exact ⟨_, (String.append_assoc ..).trans (String.append_assoc ..)⟩
  | tally c => exact ⟨_, String.append_assoc ..⟩
  | functionType => exact ⟨_, rfl⟩
  | table => exact ⟨_, String.append_assoc ..⟩

theorem name_ne (h : Apart x.front y.front) : x.name b ≠ y.name b' := by
  obtain ⟨u, hu⟩ := exists_name_eq b x
  obtain ⟨v, hv⟩ := exists_name_eq b' y
  rw [hu, hv]
  exact h.append_ne u v

/-- The table is named like a tally, but does not end in a digit. -/
theorem tally_ne_table (c : ℕ) : (tally c).name b ≠ table.name b' := by
  have hlast : "_funcs".toList.getLast? = some 's' := by decide
  exact append_nat_ne hlast (by decide) c

theorem name_eq_iff : x.name b = y.name b' ↔ Same b b' x y := by
  cases x <;> cases y
  case routerClass.routerClass => exact String.append_right_inj _
  case member.member c i c' i' =>
    unfold name estimator Same
    rw [append_underscore_nat_inj, String.append_right_inj, predictor_eq_iff]
  case tally.tally c c' => exact predictor_eq_iff
  case functionType.functionType => exact String.append_right_inj _
  case table.table => exact (String.append_left_inj _).trans (String.append_right_inj _)
  case tally.table c => exact iff_of_false (tally_ne_table c) id
  case table.tally c => exact iff_of_false (tally_ne_table c).symm id
  all_goals
    refine iff_of_false (name_ne ?_) id
    simp only [front]
    decide

theorem eq_of_same (h : Same b b x y) : x = y := by
  cases x <;> cases y
  case member.member c i c' i' =>
    rw [nat_injective ((String.append_right_inj _).1 h.1), h.2]
  case tally.tally c c' => exact congrArg tally (nat_injective ((String.append_right_inj _).1 h))
  all_goals first | rfl | exact h.elim

variable {members members' : List ℕ}

theorem mem_all : x ∈ all members ↔ match x with
    | member c i => ∃ size, members[c]? = some size ∧ i < size
    | tally c => c < members.length
    | _ => True := by
  cases x with
  | routerClass => simp [all]
  | functionType => simp [all]
  | table => simp [all]
  | member c i => simp [all, ofPredictor, List.mem_zipIdx_iff_getElem?]
  | tally c => simp [all, ofPredictor, List.mem_zipIdx_iff_getElem?, ← Option.isSome_iff_exists]

theorem mem_ofPredictor {size cluster : ℕ} (h : x ∈ ofPredictor size cluster) :
    (∃ i, x = member cluster i) ∨ x = tally cluster := by
  rcases List.mem_append.1 h with hmember | htally
  · obtain ⟨i, -, rfl⟩ := List.mem_map.1 hmember
    exact .inl ⟨i, rfl⟩
  · exact .inr (List.mem_singleton.1 htally)

theorem disjoint_ofPredictor {size size' c c' : ℕ} (h : c ≠ c') :
    (ofPredictor size c).Disjoint (ofPredictor size' c') := by
  intro x hx hx'
  rcases mem_ofPredictor hx with ⟨i, rfl⟩ | rfl
  · rcases mem_ofPredictor hx' with ⟨i', heq⟩ | heq
    · exact h (member.inj heq).1
    · cases heq
  · rcases mem_ofPredictor hx' with ⟨i', heq⟩ | heq
    · cases heq
    · exact h (tally.inj heq)

theorem nodup_ofPredictor (size cluster : ℕ) : (ofPredictor size cluster).Nodup := by
  have hmembers : ((List.range size).map (member cluster)).Nodup :=
    List.nodup_range.map fun _ _ h => (member.inj h).2
  simp [ofPredictor, List.nodup_append, hmembers]

theorem nodup_all (members : List ℕ) : (all members).Nodup := by
  have hclusters : members.zipIdx.Pairwise fun m m' => m.2 ≠ m'.2 := by
    rw [← List.pairwise_map (f := Prod.snd) (R := (· ≠ ·)), List.zipIdx_map_snd]
    exact List.nodup_range'
  have hpredictors :
      (members.zipIdx.flatMap fun (size, cluster) => ofPredictor size cluster).Nodup :=
    List.nodup_flatMap.2 ⟨fun m _ => nodup_ofPredictor m.1 m.2,
      hclusters.imp disjoint_ofPredictor⟩
  have hapart : ∀ x ∈ members.zipIdx.flatMap (fun (size, cluster) => ofPredictor size cluster),
      x ∉ [routerClass, functionType, table] := by
    intro x hx
    obtain ⟨m, -, hm⟩ := List.mem_flatMap.1 hx
    rcases mem_ofPredictor hm with ⟨i, rfl⟩ | rfl <;> simp
  refine List.nodup_cons.2 ⟨?_, List.nodup_append'.2 ⟨hpredictors, by decide, ?_⟩⟩
  · intro hmem
    rcases List.mem_append.1 hmem with hpredictor | hrest
    · exact hapart _ hpredictor List.mem_cons_self
    · exact absurd hrest (by decide)
  · exact fun x hx hrest => hapart x hx (List.mem_cons_of_mem _ hrest)

/-- Two sets share a declared name when their bases are equal or meet. -/
theorem disjoint_map_name : ((all members).map (name b)).Disjoint ((all members').map (name b')) ↔
    b ≠ b' ∧ ¬Meets b b' members.length members'.length := by
  simp only [List.disjoint_iff_ne, List.forall_mem_map, ne_eq, name_eq_iff]
  constructor
  · intro h
    constructor
    · exact h routerClass (mem_all.2 trivial) routerClass (mem_all.2 trivial)
    · rintro ⟨c, hc, c', hc', heq⟩
      exact h (tally c) (mem_all.2 hc) (tally c') (mem_all.2 hc') heq
  · rintro ⟨hne, hmeets⟩ x hx y hy hsame
    rw [mem_all] at hx hy
    cases x <;> cases y
    case routerClass.routerClass => exact hne hsame
    case functionType.functionType => exact hne hsame
    case table.table => exact hne hsame
    case tally.tally c c' => exact hmeets ⟨c, hx, c', hy, hsame⟩
    case member.member c i c' i' =>
      obtain ⟨size, hsize, -⟩ := hx
      obtain ⟨size', hsize', -⟩ := hy
      exact hmeets ⟨c, (List.getElem?_eq_some_iff.1 hsize).1, c',
        (List.getElem?_eq_some_iff.1 hsize').1, hsame.1⟩
    all_goals exact hsame

end Declaration

/-! ## One set and two sets -/

section Sets

/-- The files of a header set. -/
def files (base : String) (clusters : ℕ) : List String :=
  (HeaderKind.all clusters).map (HeaderKind.file base)

/-- The include guards of a header set. -/
def guards (base : String) (clusters : ℕ) : List String :=
  (HeaderKind.all clusters).map (HeaderKind.guard base)

/-- The names that a header set declares, for clusters whose predictors have so many members. -/
def declared (base : String) (members : List ℕ) : List String :=
  (Declaration.all members).map (Declaration.name base)

/-- The names of a set, kind by kind. -/
theorem files_eq (base : String) (clusters : ℕ) : files base clusters =
    routerFile base :: (List.range clusters).map (predictorFile base) ++ [dispatchFile base] := by
  simp only [files, HeaderKind.all, List.map_append, List.map_cons, List.map_map, List.map_nil]
  rfl

theorem guards_eq (base : String) (clusters : ℕ) : guards base clusters = routerGuard base ::
    (List.range clusters).map (fun c => predictorGuard (predictor base c)) ++
      [dispatchGuard base] := by
  simp only [guards, HeaderKind.all, List.map_append, List.map_cons, List.map_map, List.map_nil]
  rfl

/-- The names of a predictor. -/
def declaredBy (base : String) (size cluster : ℕ) : List String :=
  (List.range size).map (estimator (predictor base cluster)) ++ [predictor base cluster]

theorem declared_eq (base : String) (members : List ℕ) : declared base members =
    routerClass base :: members.zipIdx.flatMap (fun m => declaredBy base m.1 m.2) ++
      [dispatchType base, dispatchTable base] := by
  simp only [declared, Declaration.all, Declaration.ofPredictor, List.map_append, List.map_cons,
    List.map_flatMap, List.map_map, List.map_nil]
  rfl

variable {b b' : String} {clusters clusters' : ℕ} {members members' : List ℕ}

theorem length_files (base : String) (clusters : ℕ) :
    (files base clusters).length = clusters + 2 := by
  rw [files, List.length_map, HeaderKind.length_all]

theorem nodup_files (base : String) (clusters : ℕ) : (files base clusters).Nodup :=
  (HeaderKind.nodup_all clusters).map fun _ _ h =>
    HeaderKind.eq_of_same (HeaderKind.file_eq_iff.1 h)

theorem nodup_guards (base : String) (clusters : ℕ) : (guards base clusters).Nodup :=
  (HeaderKind.nodup_all clusters).map fun _ _ h =>
    HeaderKind.eq_of_same (HeaderKind.guard_eq_iff.1 h)

theorem nodup_declared (base : String) (members : List ℕ) : (declared base members).Nodup :=
  (Declaration.nodup_all members).map fun _ _ h =>
    Declaration.eq_of_same (Declaration.name_eq_iff.1 h)

theorem disjoint_files : (files b clusters).Disjoint (files b' clusters') ↔
    b ≠ b' ∧ ¬Meets b b' clusters clusters' :=
  HeaderKind.disjoint_map_all (fun _ _ => HeaderKind.file_eq_iff) clusters clusters'

theorem disjoint_guards : (guards b clusters).Disjoint (guards b' clusters') ↔
    upper b ≠ upper b' ∧ ¬Meets (upper b) (upper b') clusters clusters' :=
  HeaderKind.disjoint_map_all (fun _ _ => HeaderKind.guard_eq_iff) clusters clusters'

theorem disjoint_declared : (declared b members).Disjoint (declared b' members') ↔
    b ≠ b' ∧ ¬Meets b b' members.length members'.length :=
  Declaration.disjoint_map_name

/-- Bases that meet do so in capitals, too. -/
theorem Meets.upper (h : Meets b b' clusters clusters') :
    Meets (BaseName.upper b) (BaseName.upper b') clusters clusters' := by
  obtain ⟨c, hc, c', hc', heq⟩ := h
  refine ⟨c, hc, c', hc', ?_⟩
  rw [← upper_nat c, ← upper_append, heq, upper_append, upper_nat]

/-- Two header sets share no name of any kind. -/
structure Separate (b b' : String) (members members' : List ℕ) : Prop where
  files : (files b members.length).Disjoint (files b' members'.length)
  guards : (guards b members.length).Disjoint (guards b' members'.length)
  declared : (declared b members).Disjoint (declared b' members')

/-- The guards decide: what is shared in another place is shared there. -/
theorem separate_iff : Separate b b' members members' ↔ upper b ≠ upper b' ∧
    ¬Meets (upper b) (upper b') members.length members'.length := by
  constructor
  · exact fun h => disjoint_guards.1 h.guards
  · rintro ⟨hne, hmeets⟩
    have hbases : b ≠ b' ∧ ¬Meets b b' members.length members'.length :=
      ⟨fun heq => hne (congrArg upper heq), fun h => hmeets h.upper⟩
    exact ⟨disjoint_files.2 hbases, disjoint_guards.2 ⟨hne, hmeets⟩, disjoint_declared.2 hbases⟩

/-- Header sets of all sizes share no name when no base is the other one with a number behind it,
whatever the case of letters. -/
theorem forall_separate_iff : (∀ members members', Separate b b' members members') ↔
    upper b ≠ upper b' ∧
      ∀ n, 0 < n → upper b' ≠ upper b ++ nat n ∧ upper b ≠ upper b' ++ nat n := by
  simp only [separate_iff]
  constructor
  · intro h
    have hne := (h [] []).1
    refine ⟨hne, fun n hn => ?_⟩
    rw [← not_or]
    intro hnumber
    obtain ⟨clusters, clusters', hmeets⟩ := (exists_meets_iff hne).2 ⟨n, hn, hnumber⟩
    apply (h (List.replicate clusters 0) (List.replicate clusters' 0)).2
    rwa [List.length_replicate, List.length_replicate]
  · rintro ⟨hne, hnumbers⟩ members members'
    refine ⟨hne, fun hmeets => ?_⟩
    obtain ⟨n, hn, hnumber⟩ := (exists_meets_iff hne).1 ⟨_, _, hmeets⟩
    exact hnumber.elim (hnumbers n hn).1 (hnumbers n hn).2

end Sets

end ClauseTriage.BaseName
