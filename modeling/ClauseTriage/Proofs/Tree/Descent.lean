import ClauseTriage.Proofs.Tree.Path

/-!
# The descent of a row

A row goes down an arena position by position; at a split, its value decides the side. A row agrees
with the way to a leaf when it is on the side that the way takes at every split. It agrees with one
such way only, and the descent takes it in as many steps as the way has sides.
-/
namespace ClauseTriage

variable {α : Type} [Scalar α]

/-- The side of a split that a row is on; `true` is the side of small values. -/
def Entry.side? (row : List α) (e : Entry α) : Option Bool :=
  row[e.feature.toNat]?.map fun value => Scalar.le value e.threshold

namespace Arena

/-- The leaf that a row comes to from a position. None where the steps do not suffice, the row lacks
a tested feature, or a position lies outside the arena. -/
def descend? (t : Arena α) (row : List α) (steps id : ℕ) : Option ℕ :=
  match t[id]? with
  | none => none
  | some e =>
    if e.isLeaf then some id
    else
      match steps, e.side? row with
      | steps + 1, some low => t.descend? row steps (if low then e.left.toNat else e.right.toNat)
      | _, _ => none

/-- At every split of a way down from a position, the row is on the side that the way takes. -/
def Agrees (t : Arena α) (row : List α) (id : ℕ) (way : List Bool) : Prop :=
  ∀ before low, before ++ [low] <+: way →
    ∃ split e, t.links.follow? before id = some split ∧ t[split]? = some e ∧
      e.side? row = some low

variable {t : Arena α} {row : List α} {id next : ℕ} {low : Bool} {way : List Bool}

theorem agrees_nil (t : Arena α) (row : List α) (id : ℕ) : t.Agrees row id [] := by
  intro before low h
  simp at h

theorem agrees_cons (hchild : t.links.child? low id = some next) :
    t.Agrees row id (low :: way) ↔
      (∃ e, t[id]? = some e ∧ e.side? row = some low) ∧ t.Agrees row next way := by
  constructor
  · intro h
    constructor
    · obtain ⟨split, e, hsplit, he, hside⟩ := h [] low (by simp)
      obtain rfl : id = split := by simpa [Links.follow?] using hsplit
      exact ⟨e, he, hside⟩
    · intro before side hbefore
      obtain ⟨split, e, hsplit, he, hside⟩ := h (low :: before) side (by simpa using hbefore)
      rw [Links.follow?, hchild, Option.bind_some] at hsplit
      exact ⟨split, e, hsplit, he, hside⟩
  · rintro ⟨⟨e, he, hside⟩, h⟩ before side hbefore
    cases before with
    | nil =>
      obtain rfl : side = low := by simpa using hbefore
      exact ⟨id, e, rfl, he, hside⟩
    | cons first before =>
      rw [List.cons_append, List.cons_prefix_cons] at hbefore
      obtain ⟨rfl, hbefore⟩ := hbefore
      rw [Links.follow?, hchild, Option.bind_some]
      exact h before side hbefore

/-- A row agrees with one way from a position to an end, and no more. -/
theorem Agrees.unique {v w : List Bool} {a b : ℕ} (hv : t.Agrees row id v)
    (hw : t.Agrees row id w) (ha : t.links.follow? v id = some a)
    (hb : t.links.follow? w id = some b) (haEnd : t.links.IsEnd a) (hbEnd : t.links.IsEnd b) :
    v = w := by
  induction v generalizing id w with
  | nil =>
    obtain rfl : id = a := by simpa [Links.follow?] using ha
    cases w with
    | nil => rfl
    | cons side w => simp [Links.follow?, haEnd.child?] at hb
  | cons low v ih =>
    cases w with
    | nil =>
      obtain rfl : id = b := by simpa [Links.follow?] using hb
      simp [Links.follow?, hbEnd.child?] at ha
    | cons side w =>
      obtain ⟨next, hnext, ha⟩ := Option.bind_eq_some_iff.1 ha
      obtain ⟨next', hnext', hb⟩ := Option.bind_eq_some_iff.1 hb
      obtain ⟨⟨e, he, hlow⟩, hv⟩ := (agrees_cons hnext).1 hv
      obtain ⟨⟨e', he', hside⟩, hw⟩ := (agrees_cons hnext').1 hw
      obtain rfl := Option.some.inj (he.symm.trans he')
      obtain rfl := Option.some.inj (hlow.symm.trans hside)
      obtain rfl := Option.some.inj (hnext.symm.trans hnext')
      rw [ih hv hw ha hb]

end Arena

namespace Node

variable {t : Arena α} {n : Node α} {row : List α}

/-- A row with all tested features agrees with the way to the leaf that it reaches. -/
theorem exists_agrees (hn : n.Shows t) (hlinks : n.layout.Follows t.links)
    (hrow : ∀ e ∈ t, e.isLeaf = false → e.feature.toNat < row.length) :
    ∃ id w way, n.leafFor? row = some (id, w) ∧ t.links.follow? way n.id = some id ∧
      t.Agrees row n.id way ∧ way.length ≤ n.height := by
  induction n with
  | leaf id w => exact ⟨id, w, [], rfl, rfl, t.agrees_nil row id, le_rfl⟩
  | split id w feature threshold low high ihl ihh =>
    obtain ⟨⟨e, he, hsplit, -, rfl, rfl, -⟩, hlow, hhigh⟩ := hn
    obtain ⟨hleft, hright, hlowLinks, hhighLinks⟩ := hlinks
    rw [root_layout] at hleft hright
    have hfeature := hrow e (Array.mem_of_getElem? he) hsplit
    obtain ⟨value, hvalue⟩ : ∃ value, row[e.feature.toNat]? = some value :=
      ⟨_, List.getElem?_eq_getElem hfeature⟩
    have hside : e.side? row = some (Scalar.le value e.threshold) := by
      rw [Entry.side?, hvalue, Option.map_some]
    rw [leafFor?, hvalue, height]
    dsimp only [Node.id]
    cases hle : Scalar.le value e.threshold with
    | true =>
      obtain ⟨leaf, w', way, hreach, hfollow, hagrees, hlength⟩ := ihl hlow hlowLinks
      have hchild := Links.child?_of_left hleft
      refine ⟨leaf, w', true :: way, by rw [if_pos rfl, hreach], ?_, ?_, ?_⟩
      · rw [Links.follow?, hchild, Option.bind_some, hfollow]
      · exact (Arena.agrees_cons hchild).2 ⟨⟨e, he, hle ▸ hside⟩, hagrees⟩
      · rw [List.length_cons]
        omega
    | false =>
      obtain ⟨leaf, w', way, hreach, hfollow, hagrees, hlength⟩ := ihh hhigh hhighLinks
      have hchild := Links.child?_of_right hright
      refine ⟨leaf, w', false :: way, by rw [if_neg Bool.false_ne_true, hreach], ?_, ?_, ?_⟩
      · rw [Links.follow?, hchild, Option.bind_some, hfollow]
      · exact (Arena.agrees_cons hchild).2 ⟨⟨e, he, hle ▸ hside⟩, hagrees⟩
      · rw [List.length_cons]
        omega

omit [Scalar α] in
/-- Some leaf is as deep as the tree is high. -/
theorem exists_deepest (hlinks : n.layout.Follows t.links) :
    ∃ id w way, leaf id w ∈ n.preorder ∧ t.links.follow? way n.id = some id ∧
      way.length = n.height := by
  induction n with
  | leaf id w => exact ⟨id, w, [], List.mem_singleton_self _, rfl, rfl⟩
  | split id w feature threshold low high ihl ihh =>
    obtain ⟨hleft, hright, hlowLinks, hhighLinks⟩ := hlinks
    rw [root_layout] at hleft hright
    rw [preorder, height]
    rcases le_total low.height high.height with h | h
    · obtain ⟨leaf, w', way, hmem, hfollow, hlength⟩ := ihh hhighLinks
      refine ⟨leaf, w', false :: way, List.mem_cons_of_mem _ (List.mem_append_right _ hmem), ?_, ?_⟩
      · rw [Node.id, Links.follow?, Links.child?_of_right hright, Option.bind_some, hfollow]
      · rw [List.length_cons, hlength, max_eq_right h, Nat.add_comm]
    · obtain ⟨leaf, w', way, hmem, hfollow, hlength⟩ := ihl hlowLinks
      refine ⟨leaf, w', true :: way, List.mem_cons_of_mem _ (List.mem_append_left _ hmem), ?_, ?_⟩
      · rw [Node.id, Links.follow?, Links.child?_of_left hleft, Option.bind_some, hfollow]
      · rw [List.length_cons, hlength, max_eq_left h, Nat.add_comm]

end Node

namespace Tree

variable {t : Tree α} {row : List α}

theorem children_of_isLeaf {e : Entry α} (he : e ∈ t.arena) (hleaf : e.isLeaf = true) :
    e.left = -1 ∧ e.right = -1 := by
  have hleft : e.left = -1 := by simpa [Entry.isLeaf] using hleaf
  rcases t.inOrder e he with h | ⟨h, -⟩
  · exact h
  · omega

theorem children_of_split {e : Entry α} (he : e ∈ t.arena) (hsplit : e.isLeaf = false) :
    0 ≤ e.left ∧ 0 ≤ e.right := by
  have hleft : e.left ≠ -1 := by simpa [Entry.isLeaf] using hsplit
  rcases t.inOrder e he with ⟨h, -⟩ | ⟨h, -, h', -⟩
  · exact absurd h hleft
  · exact ⟨h, h'⟩

theorem isEnd_of_mem_leafIds {id : ℕ} (h : id ∈ t.leafIds) : t.arena.links.IsEnd id := by
  obtain ⟨e, he, hleaf⟩ := mem_leafIds_iff.1 h
  obtain ⟨hleft, hright⟩ := children_of_isLeaf (Array.mem_of_getElem? he) hleaf
  constructor
  · rw [Arena.links_left, he, Option.map_some, hleft]
  · rw [Arena.links_right, he, Option.map_some, hright]

/-- Only a split has children, and they are those that its entry names. -/
theorem entry_of_child? {id next : ℕ} {low : Bool} (h : t.arena.links.child? low id = some next) :
    ∃ e, t.arena[id]? = some e ∧ e.isLeaf = false ∧
      (if low then e.left.toNat else e.right.toNat) = next := by
  cases he : t.arena[id]? with
  | none => cases low <;> simp [Links.child?, Arena.links, he] at h
  | some e =>
    refine ⟨e, rfl, ?_, ?_⟩
    · rw [Bool.eq_false_iff]
      intro hleaf
      rw [(isEnd_of_mem_leafIds (mem_leafIds_iff.2 ⟨e, he, hleaf⟩)).child?] at h
      cases h
    · cases low
      · simp only [Links.child?, Bool.false_eq_true, if_false, Arena.links_right, he,
          Option.map_some, Option.ite_none_right_eq_some, Option.some.injEq] at h
        exact h.2
      · simp only [Links.child?, if_true, Arena.links_left, he, Option.map_some,
          Option.ite_none_right_eq_some, Option.some.injEq] at h
        exact h.2

/-- The descent takes the way to a leaf that the row agrees with, one step for each side. -/
theorem descend?_eq_of_agrees {id leaf : ℕ} {way : List Bool} (hagrees : t.arena.Agrees row id way)
    (hfollow : t.arena.links.follow? way id = some leaf) (hleaf : leaf ∈ t.leafIds) (steps : ℕ) :
    t.arena.descend? row steps id = if way.length ≤ steps then some leaf else none := by
  induction way generalizing id steps with
  | nil =>
    obtain rfl : id = leaf := by simpa [Links.follow?] using hfollow
    obtain ⟨e, he, hleaf⟩ := mem_leafIds_iff.1 hleaf
    unfold Arena.descend?
    simp [he, hleaf]
  | cons low way ih =>
    obtain ⟨next, hnext, hfollow⟩ := Option.bind_eq_some_iff.1 hfollow
    obtain ⟨⟨e, he, hside⟩, hagrees⟩ := (Arena.agrees_cons hnext).1 hagrees
    obtain ⟨e', he', hsplit, hchild⟩ := entry_of_child? hnext
    obtain rfl := Option.some.inj (he.symm.trans he')
    unfold Arena.descend?
    cases steps with
    | zero => simp [he, hsplit]
    | succ steps => simp [he, hsplit, hside, hchild, ih hagrees hfollow]

theorem forall_features_lt (h : ∀ f, t.maxFeature? = some f → f < row.length) :
    ∀ e ∈ t.arena, e.isLeaf = false → e.feature.toNat < row.length := by
  intro e he hsplit
  have hmem := mem_features he hsplit
  cases hmax : t.maxFeature? with
  | none =>
    rw [maxFeature?, List.max?_eq_none_iff] at hmax
    rw [hmax] at hmem
    cases hmem
  | some f => exact ((List.max?_eq_some_iff.1 hmax).2 _ hmem).trans_lt (h f hmax)

/-- A row that is longer than the largest tested feature reaches a leaf in no more steps than the
tree is high. It agrees with the way to this leaf and with no way to another one, so the leaves part
the rows among them. Some leaf is as deep as the tree is high. -/
theorem leaves_part_rows (t : Tree α) (row : List α)
    (hrow : ∀ f, t.maxFeature? = some f → f < row.length) :
    (∃ leaf way, t.leafFor? row = some leaf ∧ leaf ∈ t.leafIds ∧
      t.arena.links.follow? way 0 = some leaf ∧ t.arena.Agrees row 0 way ∧
      way.length ≤ t.height ∧
      (∀ steps, t.arena.descend? row steps 0 = if way.length ≤ steps then some leaf else none) ∧
      ∀ other ∈ t.leafIds, ∀ way', t.arena.links.follow? way' 0 = some other →
        t.arena.Agrees row 0 way' → other = leaf) ∧
    ∃ deepest ∈ t.leafIds, ∃ way, t.arena.links.follow? way 0 = some deepest ∧
      way.length = t.height := by
  obtain ⟨hlinks, -, -⟩ := t.root_spans.1
  constructor
  · obtain ⟨leaf, w, way, hreach, hfollow, hagrees, hlength⟩ :=
      Node.exists_agrees t.root_spans.2 hlinks (forall_features_lt hrow)
    rw [id_root] at hfollow hagrees
    have hleafFor : t.leafFor? row = some leaf := by rw [leafFor?, hreach, Option.map_some]
    have hleaf := mem_leafIds_of_leafFor? hleafFor
    refine ⟨leaf, way, hleafFor, hleaf, hfollow, hagrees, hlength,
      descend?_eq_of_agrees hagrees hfollow hleaf, fun other hother way' hfollow' hagrees' => ?_⟩
    have hway := hagrees'.unique hagrees hfollow' hfollow (isEnd_of_mem_leafIds hother)
      (isEnd_of_mem_leafIds hleaf)
    rw [hway, hfollow] at hfollow'
    exact (Option.some.inj hfollow').symm
  · obtain ⟨deepest, w, way, hmem, hfollow, hlength⟩ := Node.exists_deepest hlinks
    rw [id_root] at hfollow
    obtain ⟨e, he, hleaf, -⟩ := t.root_spans.2.of_mem hmem
    exact ⟨deepest, mem_leafIds_iff.2 ⟨e, he, hleaf⟩, way, hfollow, hlength⟩

/-- Two splits. What is not a number is not small, so it takes the second side of the first one. -/
theorem leaves_part_rows_not_number :
    ∃ t : Tree Float, t.maxFeature? = some 1 ∧ t.height = 2 ∧
      t.leafFor? [0.0 / 0.0, 4.0] = some 3 ∧ t.arena.descend? [0.0 / 0.0, 4.0] 2 0 = some 3 ∧
      t.arena.descend? [0.0 / 0.0, 4.0] 1 0 = none ∧
      ∀ other ∈ t.leafIds, ∀ way, t.arena.links.follow? way 0 = some other →
        t.arena.Agrees [0.0 / 0.0, 4.0] 0 way → other = 3 := by
  obtain ⟨arena, harena⟩ : ∃ arena : Arena Float, arena = .ofLists [1, -1, 3, -1, -1]
    [2, -1, 4, -1, -1] [0, -2, 1, -2, -2] [0.5, -2.0, 4.0, -2.0, -2.0]
    [⟨4.0, 3.0⟩, ⟨2.0, 0.0⟩, ⟨2.0, 3.0⟩, ⟨0.0, 3.0⟩, ⟨2.0, 0.0⟩] := ⟨_, rfl⟩
  have hvalid : arena.fault? = none := by
    have : arena.fault?.isNone = true := by
      rw [harena]
      decide +kernel
    simpa using this
  have hmax : (⟨arena, hvalid⟩ : Tree Float).maxFeature? = some 1 := by
    subst harena
    decide +kernel +revert
  have hheight : (⟨arena, hvalid⟩ : Tree Float).height = 2 := by
    subst harena
    decide +kernel +revert
  have hreach : (⟨arena, hvalid⟩ : Tree Float).leafFor? [0.0 / 0.0, 4.0] = some 3 := by
    subst harena
    decide +kernel +revert
  have hshort : arena.descend? [0.0 / 0.0, 4.0] 1 0 = none := by
    rw [harena]
    decide +kernel
  obtain ⟨⟨leaf, way, hleaf, -, -, -, hlength, hdescend, halone⟩, -⟩ :=
    leaves_part_rows ⟨arena, hvalid⟩ [0.0 / 0.0, 4.0] (by simp [hmax])
  obtain rfl : leaf = 3 := Option.some.inj (hleaf.symm.trans hreach)
  rw [hheight] at hlength
  exact ⟨_, hmax, hheight, hreach, (hdescend 2).trans (if_pos hlength), hshort, halone⟩

end Tree

end ClauseTriage
