import ClauseTriage.Proofs.Accessor.Rules

/-!
# Members of the shape record

A column that describes the whole problem loses its front, and two kinds of members move to records
of their own. A member that has moved stays where it is, so a name resolves to what stands for
itself, unless it has the front of a column twice.
-/
namespace ClauseTriage.Accessor

open Text

/-- The fronts of members that move, each with the record that they move to. -/
def shapeRenames : List (String × String) :=
  [("red_", "red_cl_distrib."), ("irred_", "irred_cl_distrib.")]

/-- The front of a column that describes the whole problem. -/
def shapeFront : String := shapeMarker ++ "."

/-- The rename of one front. -/
def moveFront (name : List Char) (r : String × String) : List Char :=
  (Rule.swapFront r.1 r.2).applyChars name

/-- Where a member of the shape record is found. -/
def moved (name : List Char) : List Char := shapeRenames.foldl moveFront name

/-- Where a column that describes the whole problem is found. -/
def memberOf (name : List Char) : List Char :=
  moved ((stripFront? shapeFront.toList name).getD name)

theorem toList_resolve_shape (x : String) :
    (Resolver.shape.resolve x).toList = memberOf x.toList := by
  simp only [Resolver.resolve, Resolver.shape, applyAll_cons, applyAll_nil, Rule.toList_apply]
  rfl

section Renames

variable {renames : List (String × String)} {r r' : String × String} {name rest : List Char}

theorem eq_or_eq_of_mem_shapeRenames (hr : r ∈ shapeRenames) :
    r = ("red_", "red_cl_distrib.") ∨ r = ("irred_", "irred_cl_distrib.") := by
  simpa [shapeRenames] using hr

/-- No rename applies to a member that has moved, be it by the same rename or by another one. -/
theorem moveFront_moved (hr : r ∈ shapeRenames) (hr' : r' ∈ shapeRenames) (rest : List Char) :
    moveFront (r.2.toList ++ rest) r' = r.2.toList ++ rest := by
  rcases eq_or_eq_of_mem_shapeRenames hr with rfl | rfl <;>
    rcases eq_or_eq_of_mem_shapeRenames hr' with rfl | rfl
  · exact swapFront_new _ _ rest
  · exact swapFront_of_not_front (by simp)
  · exact swapFront_of_not_front (by simp)
  · exact swapFront_new _ _ rest

theorem foldl_moveFront_eq_self (h : ∀ r ∈ renames, moveFront name r = name) :
    renames.foldl moveFront name = name := by
  induction renames with
  | nil => rfl
  | cons r renames ih =>
    obtain ⟨hr, hrenames⟩ := List.forall_mem_cons.1 h
    rw [List.foldl_cons, hr, ih hrenames]

theorem foldl_moveFront_moved (hr : r ∈ shapeRenames) (h : renames ⊆ shapeRenames)
    (rest : List Char) : renames.foldl moveFront (r.2.toList ++ rest) = r.2.toList ++ rest :=
  foldl_moveFront_eq_self fun _ hr' => moveFront_moved hr (h hr') rest

/-- A member stays where it is, or it moves to the record of one rename. -/
theorem foldl_moveFront_eq_self_or (h : renames ⊆ shapeRenames) (name : List Char) :
    renames.foldl moveFront name = name ∨
      ∃ r ∈ shapeRenames, ∃ rest, renames.foldl moveFront name = r.2.toList ++ rest := by
  induction renames with
  | nil => exact .inl rfl
  | cons r renames ih =>
    obtain ⟨hr, hrenames⟩ := List.cons_subset.1 h
    rw [List.foldl_cons]
    rcases swapFront_eq_self_or r.1 r.2 name with hself | ⟨rest, hmoved⟩
    · rw [moveFront, hself]
      exact ih hrenames
    · rw [moveFront, hmoved, foldl_moveFront_moved hr hrenames]
      exact .inr ⟨r, hr, rest, rfl⟩

theorem moved_moved (name : List Char) : moved (moved name) = moved name := by
  unfold moved
  rcases foldl_moveFront_eq_self_or (List.Subset.refl _) name with h | ⟨r, hr, rest, h⟩
  · rw [h, h]
  · rw [h, foldl_moveFront_moved hr (List.Subset.refl _)]

theorem not_shapeFront_moved (hr : r ∈ shapeRenames) (rest : List Char) :
    ¬shapeFront.toList <+: r.2.toList ++ rest := by
  rcases eq_or_eq_of_mem_shapeRenames hr with rfl | rfl <;> simp [shapeFront, shapeMarker]

/-- A name with the front of a column is no member that has moved. -/
theorem moved_of_front_moved (h : shapeFront.toList <+: moved name) : moved name = name := by
  rcases foldl_moveFront_eq_self_or (List.Subset.refl _) name with hself | ⟨r, hr, rest, hmoved⟩
  · exact hself
  · exact absurd (hmoved ▸ h) (not_shapeFront_moved hr rest)

/-- A name with the front of a column is no member that moves. -/
theorem moved_of_front (h : shapeFront.toList <+: name) : moved name = name := by
  obtain ⟨rest, rfl⟩ := h
  apply foldl_moveFront_eq_self
  intro r hr
  apply swapFront_of_not_front
  rcases eq_or_eq_of_mem_shapeRenames hr with rfl | rfl <;> simp [shapeFront, shapeMarker]

end Renames

section Columns

variable {name : List Char}

/-- A member has the front of a column when its column has it twice. -/
theorem front_memberOf_iff :
    shapeFront.toList <+: memberOf name ↔ shapeFront.toList ++ shapeFront.toList <+: name := by
  unfold memberOf
  cases hname : stripFront? shapeFront.toList name with
  | some rest =>
    rw [stripFront?_eq_some_iff.1 hname, List.prefix_append_right_inj, Option.getD_some]
    exact ⟨fun h => moved_of_front_moved h ▸ h, fun h => (moved_of_front h).symm ▸ h⟩
  | none =>
    have hfront : ¬shapeFront.toList <+: name := stripFront?_eq_none_iff.1 hname
    rw [Option.getD_none]
    refine iff_of_false (fun h => hfront (moved_of_front_moved h ▸ h)) fun h => hfront ?_
    exact (List.prefix_append _ _).trans h

/-- A member is found where it is, unless it has the front of a column. -/
theorem memberOf_memberOf_iff :
    memberOf (memberOf name) = memberOf name ↔ ¬shapeFront.toList <+: memberOf name := by
  constructor
  · rintro h ⟨rest, hrest⟩
    rw [← hrest, memberOf, stripFront?_eq_some_iff.2 rfl, Option.getD_some] at h
    -- nothing moves then, so the front is lost for good and the name gets shorter
    have hmoved : moved rest = rest := moved_of_front_moved (h ▸ List.prefix_append _ _)
    have hlength := congrArg List.length (hmoved.symm.trans h)
    rw [List.length_append] at hlength
    have hpos : 0 < shapeFront.toList.length := by decide
    omega
  · intro h
    rw [memberOf, stripFront?_eq_none_iff.2 h, Option.getD_none, memberOf, moved_moved]

end Columns

/-- What a name resolves to among the shape features stands for itself, unless the name has the
front of a column twice. A rename that takes place is the last one: neither it nor another applies
to what it gives, and members that have moved resolve to themselves. -/
theorem shape_resolve_resolve_iff :
    (∀ x : String, Resolver.shape.resolve (Resolver.shape.resolve x) = Resolver.shape.resolve x ↔
      ¬"szfeat_cur.szfeat_cur.".toList <+: x.toList) ∧
    ∀ r ∈ shapeRenames, ∀ r' ∈ shapeRenames,
      Rule.swapFront r.1 r.2 ∈ Resolver.shape.rules ∧
      (∀ name : String, (Rule.swapFront r.1 r.2).apply name ≠ name →
        (Rule.swapFront r'.1 r'.2).apply ((Rule.swapFront r.1 r.2).apply name) =
          (Rule.swapFront r.1 r.2).apply name) ∧
      ∀ rest : String, (Rule.swapFront r'.1 r'.2).apply (r.2 ++ rest) = r.2 ++ rest ∧
        Resolver.shape.resolve (r.2 ++ rest) = r.2 ++ rest := by
  refine ⟨fun x => ?_, fun r hr r' hr' => ⟨?_, fun name hname => ?_, fun rest => ⟨?_, ?_⟩⟩⟩
  · have htwice : "szfeat_cur.szfeat_cur.".toList = shapeFront.toList ++ shapeFront.toList := by
      simp [shapeFront, shapeMarker]
    rw [htwice, ← front_memberOf_iff, ← memberOf_memberOf_iff]
    simp only [← String.toList_inj, toList_resolve_shape]
  · rcases eq_or_eq_of_mem_shapeRenames hr with rfl | rfl <;> simp [Resolver.shape]
  · rcases swapFront_eq_self_or r.1 r.2 name.toList with hself | ⟨rest, hmoved⟩
    · exact absurd (String.toList_injective (by rwa [Rule.toList_apply])) hname
    · apply String.toList_injective
      rw [Rule.toList_apply, Rule.toList_apply, hmoved]
      exact moveFront_moved hr hr' rest
  · apply String.toList_injective
    rw [Rule.toList_apply, String.toList_append]
    exact moveFront_moved hr hr' rest.toList
  · apply String.toList_injective
    have hfront := not_shapeFront_moved hr rest.toList
    rw [toList_resolve_shape, String.toList_append, memberOf, stripFront?_eq_none_iff.2 hfront]
    exact foldl_moveFront_moved hr (List.Subset.refl _) rest.toList

example : Resolver.shape.resolve "szfeat_cur.szfeat_cur.red_x" = "szfeat_cur.red_x" ∧
    Resolver.shape.resolve "szfeat_cur.red_x" = "red_cl_distrib.x" := by
  decide +kernel

end ClauseTriage.Accessor
