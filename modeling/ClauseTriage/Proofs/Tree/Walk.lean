import ClauseTriage.Proofs.Tree.Links

/-!
# The depth-first walk of an arena

A walk that ends has met a forest of layouts, each position once. A walk that is stopped at a
position has found two ways to it.
-/
namespace ClauseTriage

variable {α : Type}

namespace Arena

/-- The child lists of an arena. -/
def links (t : Arena α) : Links := ⟨t.toList.map (·.left), t.toList.map (·.right)⟩

theorem links_left (t : Arena α) (id : Nat) : t.links.left[id]? = t[id]?.map (·.left) := by
  simp [links]

theorem links_right (t : Arena α) (id : Nat) : t.links.right[id]? = t[id]?.map (·.right) := by
  simp [links]

theorem childrenAt_of_isEnd {t : Arena α} {id : Nat} (h : t.links.IsEnd id) :
    t.childrenAt id = [] := by
  obtain ⟨hl, -⟩ := h
  rw [links_left, Option.map_eq_some_iff] at hl
  obtain ⟨e, he, hl⟩ := hl
  simp [childrenAt, he, Entry.children, Entry.isLeaf, hl]

theorem childrenAt_of_children {t : Arena α} {id l r : Nat}
    (hl : t.links.left[id]? = some (l : Int)) (hr : t.links.right[id]? = some (r : Int)) :
    t.childrenAt id = [l, r] := by
  rw [links_left, Option.map_eq_some_iff] at hl
  obtain ⟨e, he, hl⟩ := hl
  have hr' : e.right = r := by simpa [links_right, he] using hr
  have hne : (l : Int) ≠ -1 := by omega
  simp [childrenAt, he, Entry.children, Entry.isLeaf, hl, hr', hne]

end Arena

/-- The layouts that a walk from `seen` to `done` has met below the waiting positions. -/
structure Covers (k : Links) (seen done : Array Bool) (waiting : List Nat) (ls : List Layout) :
    Prop where
  roots : ls.map Layout.root = waiting
  follows : ∀ l ∈ ls, l.Follows k
  nodup : (ls.flatMap Layout.ids).Nodup
  fresh : ∀ id ∈ ls.flatMap Layout.ids, seen[id]? = some false
  marks : ∀ id, done[id]? = if id ∈ ls.flatMap Layout.ids then some true else seen[id]?

namespace Covers

variable {k : Links} {seen done : Array Bool}

theorem nil : Covers k seen seen [] [] where
  roots := rfl
  follows := by simp
  nodup := by simp
  fresh := by simp
  marks := by simp

/-- Marking a fresh position before a walk adds it to what the walk has met. -/
theorem push {id : Nat} {waiting waiting' : List Nat} {ls ls' : List Layout} (hid : id < seen.size)
    (hfresh : seen[id]? = some false) (h : Covers k (seen.set id true hid) done waiting ls)
    (hids : ls'.flatMap Layout.ids = id :: ls.flatMap Layout.ids)
    (hroots : ls'.map Layout.root = waiting') (hfollows : ∀ l ∈ ls', l.Follows k) :
    Covers k seen done waiting' ls' := by
  have hset (j : Nat) : (seen.set id true hid)[j]? = if id = j then some true else seen[j]? := by
    rw [Array.getElem?_set]
  have hnot : id ∉ ls.flatMap Layout.ids := by
    intro hmem
    have := h.fresh id hmem
    simp [hset] at this
  refine ⟨hroots, hfollows, ?_, ?_, ?_⟩
  · rw [hids]
    exact List.nodup_cons.2 ⟨hnot, h.nodup⟩
  · intro j hj
    rw [hids, List.mem_cons] at hj
    rcases hj with rfl | hj
    · exact hfresh
    · have hne : id ≠ j := fun he => hnot (he ▸ hj)
      simpa [hset, hne] using h.fresh j hj
  · intro j
    rw [hids, h.marks j, hset j]
    by_cases hj : id = j
    · simp [hj]
    · simp [hj, Ne.symm hj]

end Covers

/-- What a walk has met when it ends: below every waiting position a layout of fresh positions. -/
theorem Arena.walk_covers {t : Arena α} (hb : t.links.Binary t.size) {seen done : Array Bool}
    {waiting : List Nat} (hs : seen.size = t.size) (h : t.walk seen waiting = .ok done) :
    ∃ ls, Covers t.links seen done waiting ls := by
  fun_induction Arena.walk t seen waiting with
  | case1 seen =>
    obtain rfl : seen = done := by simpa using h
    exact ⟨[], .nil⟩
  | case2 seen id waiting hfresh ih =>
    obtain ⟨hid, -⟩ := Array.getElem?_eq_some_iff.1 hfresh
    obtain ⟨ls, hc⟩ := ih (by simpa using hs) h
    rcases hb id (hs ▸ hid) with hend | ⟨l, r, -, -, hl, hr⟩
    · rw [childrenAt_of_isEnd hend, List.nil_append] at hc
      refine ⟨.leaf id :: ls, hc.push hid hfresh (by simp [Layout.ids]) (by simp [hc.roots]) ?_⟩
      simpa using ⟨hend, hc.follows⟩
    · rw [childrenAt_of_children hl hr] at hc
      -- the first two layouts are those of the children
      obtain ⟨low, ls, rfl, rfl, hroots⟩ := List.map_eq_cons_iff.1 hc.roots
      obtain ⟨high, ls, rfl, rfl, hroots⟩ := List.map_eq_cons_iff.1 hroots
      refine ⟨.split id low high :: ls,
        hc.push hid hfresh (by simp [Layout.ids]) (by simpa using hroots) ?_⟩
      have hf := hc.follows
      simp only [List.mem_cons, forall_eq_or_imp] at hf ⊢
      exact ⟨⟨hl, hr, hf.1, hf.2.1⟩, hf.2.2⟩
  | case3 seen id waiting hnot => simp at h

/-- What holds of a walk from position 0: every waiting position has a way to it, no such way begins
another one, and none begins the way to a position that was met. -/
structure Frontier (k : Links) (seen : Array Bool) (waiting : List Nat) (ways : List (List Bool)) :
    Prop where
  ends : ways.map (k.follow? · 0) = waiting.map some
  inRange : ∀ id ∈ waiting, id < seen.size
  apart : ways.Pairwise fun v w => ¬v <+: w ∧ ¬w <+: v
  met : ∀ id, seen[id]? = some true →
    ∃ way, k.follow? way 0 = some id ∧ ∀ v ∈ ways, ¬v <+: way

namespace Frontier

variable {k : Links} {seen : Array Bool} {id : Nat} {waiting : List Nat}

/-- The walk begins at position 0. -/
theorem start {size : Nat} (h : 0 < size) : Frontier k (Array.replicate size false) [0] [[]] where
  ends := rfl
  inRange := by simpa using h
  apart := List.pairwise_singleton _ _
  met id hid := by
    simp [Array.getElem?_replicate] at hid

/-- A waiting position that was met before has two ways to it. -/
theorem two_ways {ways : List (List Bool)} (h : Frontier k seen (id :: waiting) ways)
    (hmet : seen[id]? = some true) :
    ∃ v w, v ≠ w ∧ k.follow? v 0 = some id ∧ k.follow? w 0 = some id := by
  obtain ⟨way, rest, rfl, hway, -⟩ := List.map_eq_cons_iff.1 h.ends
  obtain ⟨other, hother, hnot⟩ := h.met id hmet
  refine ⟨way, other, ?_, hway, hother⟩
  rintro rfl
  exact hnot way (by simp) List.prefix_rfl

/-- Ways to the children of the first waiting position take the place of the way to it. -/
theorem step {way : List Bool} {ways : List (List Bool)} (sides : List Bool) {children : List Nat}
    (hid : id < seen.size) (h : Frontier k seen (id :: waiting) (way :: ways))
    (hsides : sides.Nodup) (hchild : sides.map (k.child? · id) = children.map some)
    (hrange : ∀ c ∈ children, c < seen.size) :
    Frontier k (seen.set id true hid) (children ++ waiting)
      (sides.map (fun side => way ++ [side]) ++ ways) := by
  have hends := h.ends
  simp only [List.map_cons, List.cons.injEq] at hends
  obtain ⟨hway, hrest⟩ := hends
  obtain ⟨hfirst, hapart⟩ := List.pairwise_cons.1 h.apart
  refine ⟨?_, ?_, ?_, ?_⟩
  · rw [List.map_append, List.map_append, hrest, ← hchild, List.map_map]
    congr 1
    apply List.map_congr_left
    intro side _
    simp [Links.follow?_append, hway, Links.follow?]
  · intro c hc
    rw [Array.size_set]
    cases List.mem_append.1 hc with
    | inl hc => exact hrange c hc
    | inr hc => exact h.inRange c (List.mem_cons_of_mem _ hc)
  · refine List.pairwise_append.2 ⟨?_, hapart, ?_⟩
    · refine List.pairwise_map.2 (hsides.imp fun {a b} hab => ?_)
      simp [List.prefix_append_right_inj, List.prefix_cons_iff, hab, Ne.symm hab]
    · intro v hv w hw
      obtain ⟨side, -, rfl⟩ := List.mem_map.1 hv
      obtain ⟨hvw, hwv⟩ := hfirst w hw
      refine ⟨fun hp => hvw ((List.prefix_append _ _).trans hp), fun hp => ?_⟩
      rcases List.prefix_concat_iff.1 hp with rfl | hp
      · exact hvw (List.prefix_append _ _)
      · exact hwv hp
  · intro j hj
    rw [Array.getElem?_set] at hj
    split at hj
    · rename_i he
      subst he
      -- the position just met is reached by the way that was taken away
      refine ⟨way, hway, fun v hv => ?_⟩
      cases List.mem_append.1 hv with
      | inl hv =>
        obtain ⟨side, -, rfl⟩ := List.mem_map.1 hv
        intro hp
        exact absurd hp.length_le (by simp)
      | inr hv => exact (hfirst v hv).2
    · obtain ⟨other, hother, hnot⟩ := h.met j hj
      refine ⟨other, hother, fun v hv => ?_⟩
      cases List.mem_append.1 hv with
      | inl hv =>
        obtain ⟨side, -, rfl⟩ := List.mem_map.1 hv
        intro hp
        exact hnot way (by simp) ((List.prefix_append _ _).trans hp)
      | inr hv => exact hnot v (List.mem_cons_of_mem _ hv)

end Frontier

/-- A walk is stopped only at a position with two ways to it. -/
theorem Arena.walk_two_ways {t : Arena α} (hb : t.links.Binary t.size) {seen : Array Bool}
    {waiting : List Nat} {ways : List (List Bool)} (hs : seen.size = t.size)
    (hf : Frontier t.links seen waiting ways) {id : Nat} (h : t.walk seen waiting = .error id) :
    ∃ v w, v ≠ w ∧ t.links.follow? v 0 = some id ∧ t.links.follow? w 0 = some id := by
  fun_induction Arena.walk t seen waiting generalizing ways with
  | case1 seen => simp at h
  | case2 seen j waiting hfresh ih =>
    obtain ⟨hj, -⟩ := Array.getElem?_eq_some_iff.1 hfresh
    obtain ⟨way, ways, rfl, -⟩ := List.map_eq_cons_iff.1 hf.ends
    rcases hb j (hs ▸ hj) with hend | ⟨l, r, hl, hr, hleft, hright⟩
    · have hc := childrenAt_of_isEnd hend
      have hsides : [].map (t.links.child? · j) = (t.childrenAt j).map some := by simp [hc]
      have hnext := hf.step [] hj (by simp) hsides (by simp [hc])
      exact ih (by simpa using hs) hnext h
    · have hc := childrenAt_of_children hleft hright
      have hsides : [true, false].map (t.links.child? · j) = (t.childrenAt j).map some := by
        simp [hc, Links.child?_of_left hleft, Links.child?_of_right hright]
      have hnext := hf.step [true, false] hj (by simp) hsides (by simp [hc, hs, hl, hr])
      exact ih (by simpa using hs) hnext h
  | case3 seen j waiting hnot =>
    obtain rfl : j = id := by simpa using h
    have hj := hf.inRange j (by simp)
    cases hmark : seen[j] with
    | false => exact absurd (Array.getElem?_eq_some_iff.2 ⟨hj, hmark⟩) hnot
    | true => exact hf.two_ways (Array.getElem?_eq_some_iff.2 ⟨hj, hmark⟩)

end ClauseTriage
