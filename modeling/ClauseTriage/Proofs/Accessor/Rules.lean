import ClauseTriage.Accessor.Resolver
import ClauseTriage.Proofs.Decimal.Layout

/-!
# What rules do to a name

Each rule either leaves a name alone or takes one known text for another: a front, a generation with
its digits, or every occurrence of one character.
-/
namespace ClauseTriage.Accessor

open Text

namespace Rule

@[simp] theorem toList_apply (r : Rule) (name : String) :
    (r.apply name).toList = r.applyChars name.toList := by
  rw [apply, String.toList_ofList]

end Rule

@[simp] theorem applyAll_nil (name : String) : applyAll [] name = name := rfl

@[simp] theorem applyAll_cons (r : Rule) (rules : List Rule) (name : String) :
    applyAll (r :: rules) name = applyAll rules (r.apply name) :=
  rfl

section Characters

/-- Replacing one character by another one. -/
theorem replaceWord_singleton (c d : Char) (s : List Char) :
    replaceWord c [] [d] s = s.map fun x => if x = c then d else x := by
  induction s with
  | nil => simp [replaceWord]
  | cons x s ih =>
    rw [replaceWord]
    split
    · rename_i rest hrest
      obtain ⟨rfl, rfl⟩ := List.cons.inj (stripFront?_eq_some_iff.1 hrest)
      simp [ih]
    · rename_i hrest
      have hx : x ≠ c := by
        rintro rfl
        simp [stripFront?] at hrest
      simp [hx, ih]

end Characters

section Generations

variable {stem name rest : List Char}

/-- A generation has digits, an underscore after them, and some text behind it. -/
theorem unqualified?_eq_some_iff : unqualified? stem name = some rest ↔
    ∃ digits, digits ≠ [] ∧ (∀ d ∈ digits, d.isDigit = true) ∧ rest ≠ [] ∧
      name = stem ++ (digits ++ '_' :: rest) := by
  constructor
  · intro h
    unfold unqualified? at h
    split at h
    · cases h
    · rename_i behind hbehind
      split at h
      · cases h
      · rename_i hdigits
        split at h
        · rename_i c text hdrop
          obtain rfl := Option.some.inj h
          refine ⟨behind.takeWhile Char.isDigit, by simpa using hdigits,
            fun d hd => List.mem_takeWhile_imp hd, by simp, ?_⟩
          rw [← hdrop, List.takeWhile_append_dropWhile]
          exact stripFront?_eq_some_iff.1 hbehind
        · cases h
  · rintro ⟨digits, hne, hdigits, hrest, rfl⟩
    obtain ⟨htake, hdrop⟩ := Decimal.takeWhile_digits ('_' :: rest) hdigits (by simp)
    obtain ⟨c, text, rfl⟩ := List.exists_cons_of_ne_nil hrest
    rw [unqualified?, stripFront?_eq_some_iff.2 rfl]
    simp [htake, hdrop, hne]

end Generations

section Fronts

variable {old new : String} {name : List Char}

/-- A front that is there already is not put there again. -/
theorem swapFront_new (old new : String) (rest : List Char) :
    (Rule.swapFront old new).applyChars (new.toList ++ rest) = new.toList ++ rest := by
  rw [Rule.applyChars, if_pos (startsWith_iff.2 (List.prefix_append _ _))]

theorem dropFront_of_not_front {front : String} (h : ¬front.toList <+: name) :
    (Rule.dropFront front).applyChars name = name := by
  rw [Rule.applyChars, stripFront?_eq_none_iff.2 h, Option.getD_none]

theorem swapFront_of_not_front (h : ¬old.toList <+: name) :
    (Rule.swapFront old new).applyChars name = name := by
  rw [Rule.applyChars, stripFront?_eq_none_iff.2 h]
  exact ite_self name

/-- A name is left alone or gets the new front. -/
theorem swapFront_eq_self_or (old new : String) (name : List Char) :
    (Rule.swapFront old new).applyChars name = name ∨
      ∃ rest, (Rule.swapFront old new).applyChars name = new.toList ++ rest := by
  rw [Rule.applyChars]
  split
  · exact .inl rfl
  · split
    · exact .inr ⟨_, rfl⟩
    · exact .inl rfl

end Fronts

end ClauseTriage.Accessor
