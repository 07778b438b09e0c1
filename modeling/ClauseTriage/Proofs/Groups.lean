import Mathlib

/-!
# Lists in groups

A list that is grouped by a key loses and repeats nothing, as long as the keys do not repeat and
every entry has one of them.
-/
namespace ClauseTriage

variable {α β : Type} [BEq β] [LawfulBEq β]

theorem flatMap_filter_perm {keys : List β} (hkeys : keys.Nodup) (key : α → β) {xs : List α}
    (h : ∀ x ∈ xs, key x ∈ keys) : (keys.flatMap fun k => xs.filter (key · == k)).Perm xs := by
  induction keys generalizing xs with
  | nil =>
    obtain rfl := List.eq_nil_iff_forall_not_mem.2 fun x hx => List.not_mem_nil (h x hx)
    exact .refl []
  | cons k keys ih =>
    obtain ⟨hk, hrest⟩ := List.nodup_cons.1 hkeys
    have hothers : ∀ x ∈ xs.filter (!key · == k), key x ∈ keys := by
      intro x hx
      obtain ⟨hx, hne⟩ := List.mem_filter.1 hx
      exact (List.mem_cons.1 (h x hx)).resolve_left (by simpa using hne)
    have hgroups : (keys.flatMap fun k' => (xs.filter (!key · == k)).filter (key · == k')) =
        keys.flatMap fun k' => xs.filter (key · == k') := by
      apply List.flatMap_congr
      intro k' hk'
      rw [List.filter_filter]
      apply List.filter_congr
      intro x _
      by_cases hx : key x = k'
      · have hne : k' ≠ k := fun he => hk (he ▸ hk')
        simp [hx, hne]
      · simp [hx]
    rw [List.flatMap_cons, ← hgroups]
    exact ((ih hrest hothers).append_left _).trans (List.filter_append_perm _ xs)

/-- The sizes of the groups add up. -/
theorem sum_countP_keys {keys : List β} (hkeys : keys.Nodup) (key : α → β) {xs : List α}
    (h : ∀ x ∈ xs, key x ∈ keys) :
    (keys.map fun k => xs.countP (key · == k)).sum = xs.length := by
  have hlength := (flatMap_filter_perm hkeys key h).length_eq
  rw [List.length_flatMap] at hlength
  simpa only [List.countP_eq_length_filter] using hlength

end ClauseTriage
