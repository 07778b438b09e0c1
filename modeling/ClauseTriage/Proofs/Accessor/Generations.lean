import ClauseTriage.Proofs.Accessor.Arguments
import ClauseTriage.Proofs.Accessor.Rules

/-!
# Generations of a statistic

Columns that differ in their generation alone, the `rdb` with its digits in front of a statistic,
are read through one expression: that of the statistic. A name with no digits there keeps its front.
-/
namespace ClauseTriage.Accessor

open Text

/-- Points of a column name are underscores in the host program. -/
def underscore (c : Char) : Char := if c = '.' then '_' else c

/-- The statistic that a name without a generation stands for; one of them has another name in the
host program. -/
def statistic (name : String) : String :=
  let plain := String.ofList (name.toList.map underscore)
  if plain = "dump_no" then "dump_number" else plain

/-- A name begins with a generation: `rdb` with digits, a point or an underscore, and more text. -/
def HasGeneration (name : List Char) : Prop :=
  ∃ digits separator rest, digits ≠ [] ∧ (∀ d ∈ digits, d.isDigit = true) ∧
    (separator = '.' ∨ separator = '_') ∧ rest ≠ [] ∧
    name = "rdb".toList ++ (digits ++ separator :: rest)

section Names

variable {s text digits rest : List Char}

theorem underscore_eq_underscore_iff {c : Char} : underscore c = '_' ↔ c = '.' ∨ c = '_' := by
  unfold underscore
  by_cases h : c = '.' <;> simp [h]

/-- What has no underscore was written without points. -/
theorem eq_of_map_underscore (h : s.map underscore = text) (htext : '_' ∉ text) : s = text := by
  subst h
  induction s with
  | nil => rfl
  | cons c s ih =>
    obtain ⟨hc, hs⟩ := not_or.1 (mt List.mem_cons.2 htext)
    have hpoint : c ≠ '.' := by
      rintro rfl
      exact hc rfl
    rw [List.map_cons, ← ih hs, underscore, if_neg hpoint]

theorem map_underscore_of_isDigit (h : ∀ d ∈ digits, d.isDigit = true) :
    digits.map underscore = digits := by
  refine (List.map_congr_left fun d hd => ?_).trans (List.map_id digits)
  have hpoint : d ≠ '.' := by
    rintro rfl
    exact absurd (h _ hd) (by decide)
  rw [underscore, if_neg hpoint, id]

/-- A generation is taken away from a name with points as from one with underscores. -/
theorem unqualified?_map_underscore (hdigits : ∀ d ∈ digits, d.isDigit = true) (hne : digits ≠ [])
    (hrest : rest ≠ []) {separator : Char} (hseparator : separator = '.' ∨ separator = '_') :
    unqualified? "rdb".toList
        (("rdb".toList ++ (digits ++ separator :: rest)).map underscore) =
      some (rest.map underscore) := by
  rw [unqualified?_eq_some_iff]
  refine ⟨digits, hne, hdigits, by simpa using hrest, ?_⟩
  rw [List.map_append, List.map_append, List.map_cons, map_underscore_of_isDigit hdigits,
    underscore_eq_underscore_iff.2 hseparator]
  rfl

/-- Other names have no generation to take away. -/
theorem unqualified?_eq_none (h : ¬HasGeneration s) :
    unqualified? "rdb".toList (s.map underscore) = none := by
  rw [Option.eq_none_iff_forall_ne_some]
  intro rest hrest
  obtain ⟨digits, hne, hdigits, htext, hname⟩ := unqualified?_eq_some_iff.1 hrest
  obtain ⟨front, behind, rfl, hfront, hbehind⟩ := List.map_eq_append_iff.1 hname
  obtain ⟨digits', tail, rfl, hdigits', htail⟩ := List.map_eq_append_iff.1 hbehind
  obtain ⟨separator, rest', rfl, hseparator, rfl⟩ := List.map_eq_cons_iff.1 htail
  have hplain : '_' ∉ digits := fun hmem => absurd (hdigits _ hmem) (by decide)
  rw [eq_of_map_underscore hfront (by decide), eq_of_map_underscore hdigits' hplain] at h
  exact h ⟨digits, separator, rest', hne, hdigits, underscore_eq_underscore_iff.1 hseparator,
    by simpa using htext, rfl⟩

theorem not_hasGeneration (h : ∀ c ∈ rest.head?, c.isDigit = false) :
    ¬HasGeneration ("rdb".toList ++ rest) := by
  rintro ⟨digits, separator, text, hne, hdigits, -, -, hname⟩
  obtain ⟨d, digits, rfl⟩ := List.exists_cons_of_ne_nil hne
  rw [List.append_cancel_left hname] at h
  have hd := h d rfl
  rw [hdigits d List.mem_cons_self] at hd
  cases hd

end Names

section Resolving

variable {host : Host} {name digits raw : String}

/-- What is left of a name without points is looked up under its statistic. -/
theorem applyAll_ofHost (hfront : ¬"cl.".toList <+: raw.toList)
    (hplain : (unqualified? "rdb".toList (raw.toList.map underscore)).getD
      (raw.toList.map underscore) = name.toList.map underscore) :
    applyAll (Resolver.ofHost host).rules raw = statistic name := by
  have hreplaced : (Rule.replaceAll "." "_").applyChars raw.toList = raw.toList.map underscore :=
    replaceWord_singleton '.' '_' raw.toList
  apply String.toList_injective
  simp only [Resolver.ofHost, applyAll_cons, applyAll_nil, Rule.toList_apply,
    dropFront_of_not_front hfront, hreplaced]
  rw [Rule.applyChars, Rule.applyChars, hplain, statistic]
  simp only [← String.toList_inj, String.toList_ofList, apply_ite String.toList]

/-- A name that is no accessor and has neither front is looked up under its statistic. -/
theorem resolve_eq_bindClause (hraw : ¬OfArguments host name)
    (hfront : ¬"cl.".toList <+: name.toList) (hgeneration : ¬HasGeneration name.toList) :
    (Resolver.ofHost host).resolve name = bindClause host (statistic name) := by
  rw [resolve_ofHost, if_neg (mt isAccessor_iff.1 hraw), applyAll_ofHost hfront]
  rw [unqualified?_eq_none hgeneration, Option.getD_none]

/-- A text with a point is not an expression over arguments without points, if no arrow stands
before the point. -/
theorem not_ofArguments_of_point (hvar : '.' ∉ host.clauseVar.toList)
    (hidents : ∀ p ∈ host.params, '.' ∉ p.ident.toList) {front behind : List Char}
    (hraw : raw.toList = front ++ '.' :: behind) (hfront : '-' ∉ front) :
    ¬OfArguments host raw := by
  rintro (⟨rest, hrest⟩ | ⟨p, hp, rfl⟩)
  · have harrow : '-' ∈ (host.clauseVar ++ "->").toList := by simp
    have hpoint : '.' ∉ (host.clauseVar ++ "->").toList := by simpa using hvar
    rw [hrest, String.toList_append] at hraw
    -- either the arrow is over before the point, or the point is among the pointer's name and arrow
    rcases List.append_eq_append_iff.1 hraw with ⟨middle, hmiddle, -⟩ | ⟨middle, hmiddle, hbehind⟩
    · exact hfront (hmiddle ▸ List.mem_append_left _ harrow)
    · cases middle with
      | nil => exact hfront (by simpa [hmiddle] using harrow)
      | cons c middle =>
        obtain ⟨rfl, -⟩ := List.cons.inj hbehind
        exact hpoint (by simp [hmiddle])
  · exact hidents p hp (by simp [hraw])

theorem resolve_generation_eq (hvar : '.' ∉ host.clauseVar.toList)
    (hidents : ∀ p ∈ host.params, '.' ∉ p.ident.toList) (hname : name ≠ "") (hne : digits ≠ "")
    (hdigits : ∀ d ∈ digits.toList, d.isDigit = true) :
    (Resolver.ofHost host).resolve ("rdb" ++ digits ++ "." ++ name) =
      bindClause host (statistic name) := by
  have hraw : ("rdb" ++ digits ++ "." ++ name).toList =
      "rdb".toList ++ digits.toList ++ '.' :: name.toList := by simp
  have hfront : '-' ∉ "rdb".toList ++ digits.toList := by
    rw [List.mem_append, not_or]
    exact ⟨by decide, fun hmem => absurd (hdigits _ hmem) (by decide)⟩
  have harguments := not_ofArguments_of_point hvar hidents hraw hfront
  rw [List.append_assoc] at hraw
  rw [resolve_ofHost, if_neg (mt isAccessor_iff.1 harguments), applyAll_ofHost]
  · rw [hraw]
    simp
  · rw [hraw, unqualified?_map_underscore hdigits (by simpa using hne) (by simpa using hname)
      (.inl rfl), Option.getD_some]

/-- In a host whose clause pointer and arguments are named without points: a statistic behind any
generation is read through the same expression as by itself, be it the size, an argument of the
host, a renamed statistic or any other. A name with no digits after its `rdb` is looked up with its
whole front. -/
theorem resolve_generation (host : Host) (hvar : '.' ∉ host.clauseVar.toList)
    (hidents : ∀ p ∈ host.params, '.' ∉ p.ident.toList) :
    (∀ name : String, name ≠ "" → ¬OfArguments host name → ¬"cl.".toList <+: name.toList →
      ¬HasGeneration name.toList →
      (Resolver.ofHost host).resolve name = bindClause host (statistic name) ∧
      ∀ digits : String, digits ≠ "" → (∀ d ∈ digits.toList, d.isDigit = true) →
        (Resolver.ofHost host).resolve ("rdb" ++ digits ++ "." ++ name) =
          (Resolver.ofHost host).resolve name) ∧
    ∀ rest : String, (∀ c ∈ rest.toList.head?, c.isDigit = false) →
      ¬OfArguments host ("rdb" ++ rest) →
      (Resolver.ofHost host).resolve ("rdb" ++ rest) =
        bindClause host ("rdb" ++ String.ofList (rest.toList.map underscore)) := by
  constructor
  · intro name hname hraw hfront hgeneration
    have hplain := resolve_eq_bindClause hraw hfront hgeneration
    refine ⟨hplain, fun digits hne hdigits => ?_⟩
    rw [hplain, resolve_generation_eq hvar hidents hname hne hdigits]
  · intro rest hrest hraw
    have hgeneration : ¬HasGeneration ("rdb" ++ rest).toList := by
      rw [String.toList_append]
      exact not_hasGeneration hrest
    have hplain : String.ofList (("rdb" ++ rest).toList.map underscore) =
        "rdb" ++ String.ofList (rest.toList.map underscore) := by
      apply String.toList_injective
      simp [underscore]
    have hkept : "rdb" ++ String.ofList (rest.toList.map underscore) ≠ "dump_no" := by
      simp [← String.toList_inj]
    rw [resolve_eq_bindClause hraw (by simp) hgeneration, statistic, hplain, if_neg hkept]

/-- The dump number behind the twelfth generation, and a name that only begins like a generation. -/
theorem resolve_generation_twelve :
    (Resolver.ofHost {}).resolve "rdb12.dump_no" = (Resolver.ofHost {}).resolve "dump_no" ∧
    (Resolver.ofHost {}).resolve "dump_no" = "cl->stats.dump_number" ∧
    (Resolver.ofHost {}).resolve "rdb.rel_uip" = "cl->stats.rdb_rel_uip" := by
  have hraw (name : String) (h : isAccessor {} name = false) : ¬OfArguments {} name := by
    rw [← isAccessor_iff, h]
    exact Bool.false_ne_true
  have hgeneration : ¬HasGeneration "dump_no".toList := by
    rintro ⟨digits, separator, rest, -, -, -, -, hname⟩
    simp at hname
  obtain ⟨hnames, hkept⟩ := resolve_generation {} (by decide) (by decide)
  obtain ⟨hplain, hgenerations⟩ := hnames "dump_no" (by simp) (hraw _ (by decide +kernel))
    (by simp) hgeneration
  refine ⟨hgenerations "12" (by simp) (by simp), hplain.trans (by decide +kernel), ?_⟩
  exact (hkept ".rel_uip" (by simp) (hraw _ (by decide +kernel))).trans (by decide +kernel)

end Resolving

end ClauseTriage.Accessor
