import ClauseTriage.Code.Estimator
import ClauseTriage.Proofs.Source.Grammar

/-!
# Accessors of a function's arguments

Whatever a column is called, it is read through the clause pointer or it is one of the arguments
that the host hands over, and such an expression stands for itself. So all that a generated function
tests is reached from names that its own signature declares.
-/
namespace ClauseTriage.Accessor

open Code Source Text

/-- An expression over the arguments of the host's functions: something behind the clause pointer,
or one of the other arguments. -/
def OfArguments (host : Host) (a : String) : Prop :=
  (∃ rest, a = host.clauseVar ++ "->" ++ rest) ∨ ∃ p ∈ host.params, a = p.ident

section Resolving

variable {host : Host} {a : String}

theorem isAccessor_iff : isAccessor host a = true ↔ OfArguments host a := by
  rw [isAccessor, Bool.or_eq_true, startsWith_iff, OfArguments]
  apply or_congr
  · constructor
    · rintro ⟨rest, hrest⟩
      refine ⟨String.ofList rest, String.ext ?_⟩
      rw [String.toList_append, String.toList_ofList, hrest]
    · rintro ⟨rest, rfl⟩
      exact ⟨rest.toList, by simp⟩
  · simp [@eq_comm _ a]

theorem ofArguments_bindClause (host : Host) (name : String) :
    OfArguments host (bindClause host name) := by
  unfold bindClause
  split
  · exact .inl ⟨host.sizeAccessor, rfl⟩
  · split
    · rename_i p hp
      exact .inr ⟨p, List.mem_of_find?_eq_some hp, rfl⟩
    · exact .inl ⟨host.statsMember ++ "." ++ name, by simp [String.append_assoc]⟩

theorem resolve_ofHost (host : Host) (raw : String) : (Resolver.ofHost host).resolve raw =
    if isAccessor host raw then raw
    else bindClause host (applyAll (Resolver.ofHost host).rules raw) :=
  rfl

theorem ofArguments_resolve (host : Host) (raw : String) :
    OfArguments host ((Resolver.ofHost host).resolve raw) := by
  rw [resolve_ofHost]
  split
  · rename_i h
    exact isAccessor_iff.1 h
  · exact ofArguments_bindClause host _

/-- An expression over the arguments stands for itself. -/
theorem resolve_eq_self (h : OfArguments host a) : (Resolver.ofHost host).resolve a = a := by
  rw [resolve_ofHost, if_pos (isAccessor_iff.2 h)]

end Resolving

section Functions

/-- The accessors that a statement compares. -/
def tested : Statement → List String
  | .result _ => []
  | .branch accessor _ low high => accessor :: (tested low ++ tested high)

variable {t : Tree Float} {arena : Arena Float} {names : List String} {host : Host}
  {resolver : Resolver} {s : Statement} {id : ℕ}

theorem tested_of_says (h : Says arena names resolver id s) :
    ∀ a ∈ tested s, ∃ name ∈ names, a = resolver.resolve name := by
  induction h with
  | result => simp [tested]
  | @branch id e name low high he hsplit hname hlow hhigh ihl ihh =>
    intro a ha
    rw [tested, List.mem_cons, List.mem_append] at ha
    rcases ha with rfl | ha | ha
    · exact ⟨name, List.mem_of_getElem? hname, rfl⟩
    · exact ihl a ha
    · exact ihh a ha

/-- The statement of a tree says what the tree says from its root on. -/
theorem says_of_statement? (h : statement? t names resolver = .ok s) :
    Says t.arena names resolver 0 s := by
  obtain ⟨passed, hcheck, rfl⟩ := map_eq_ok_iff.1 h
  have hfeatures : ∀ e ∈ t.arena, e.isLeaf = false → e.feature.toNat < names.length :=
    fun e he hsplit => checkFeatures_eq_ok_iff.1 hcheck _ (Tree.mem_features he hsplit)
  exact t.id_root ▸ says_ofNode t.root_spans.2 hfeatures

theorem exists_declares_clauseVar (depth : ℕ) (result name : String) (host : Host) :
    ∃ l ∈ signature depth result name host,
      declares l.text.toList host.clauseVar.toList = true := by
  refine ⟨⟨depth + 1, "const " ++ host.clauseType ++ "* " ++ host.clauseVar⟩, ?_, ?_⟩
  · simp [signature]
  · have := declares_append ("const " ++ host.clauseType ++ "*").toList host.clauseVar.toList
    simpa using this

theorem exists_declares_ident (depth : ℕ) (result name : String) {p : HostParam}
    (hp : p ∈ host.params) :
    ∃ l ∈ signature depth result name host, declares l.text.toList p.ident.toList = true := by
  refine ⟨⟨depth + 1, ", const " ++ host.paramType ++ " " ++ p.ident⟩, ?_, ?_⟩
  · simp only [signature, List.mem_append, List.mem_cons, List.mem_map]
    exact .inl (.inr (.inr ⟨p, hp, rfl⟩))
  · have := declares_append (", const " ++ host.paramType).toList p.ident.toList
    simpa using this

/-- Every column is read behind the clause pointer or is an argument of the host, and resolving what
it is read through changes nothing. So a generated function tests expressions over the clause
pointer and the other arguments, all of which its signature declares. -/
theorem resolve_over_arguments (host : Host) :
    (∀ raw : String,
      let accessor := (Resolver.ofHost host).resolve raw
      ((∃ rest, accessor = host.clauseVar ++ "->" ++ rest) ∨
        ∃ p ∈ host.params, accessor = p.ident) ∧
      (Resolver.ofHost host).resolve accessor = accessor) ∧
    (∀ t names name depth text, estimator? t names name host depth = .ok text →
      ∃ s : Statement,
        text = render (signature depth "double" name host ++ s.lines (depth + 1) ++
          [⟨depth, "\x7d"⟩]) ∧
        ∀ a ∈ tested s, OfArguments host a) ∧
    ∀ depth result name,
      (∃ l ∈ signature depth result name host,
        declares l.text.toList host.clauseVar.toList = true) ∧
      ∀ p ∈ host.params, ∃ l ∈ signature depth result name host,
        declares l.text.toList p.ident.toList = true := by
  refine ⟨fun raw => ?_, fun t names name depth text h => ?_, fun depth result name => ?_⟩
  · have harguments := ofArguments_resolve host raw
    exact ⟨harguments, resolve_eq_self harguments⟩
  · obtain ⟨s, hs, rfl⟩ := map_eq_ok_iff.1 h
    refine ⟨s, rfl, fun a ha => ?_⟩
    obtain ⟨raw, -, rfl⟩ := tested_of_says (says_of_statement? hs) a ha
    exact ofArguments_resolve host raw
  · exact ⟨exists_declares_clauseVar depth result name host,
      fun p hp => exists_declares_ident depth result name hp⟩

end Functions

end ClauseTriage.Accessor
