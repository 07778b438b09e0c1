import ClauseTriage.Fit.Growth
import ClauseTriage.Proofs.Tree.Unfolding

/-!
# The numbers of a grown tree

The arena of a grown tree has no fault when its thresholds are finite. Unfolding it gives the grown
tree back, its nodes numbered in preorder: every subtree has a range of numbers of its own, and the
first branch of a split has the number after it.
-/
namespace ClauseTriage

variable {α : Type}

/-- Nodes are numbered in preorder: the branch for small values stands right after its split, and
the nodes of every subtree stand together. -/
structure Tree.InPreorder [Scalar α] (t : Tree α) : Prop where
  ids : t.root.preorder.map Node.id = List.range t.size
  ranges : ∀ n ∈ t.root.preorder, n.preorder.map Node.id = List.range' n.id n.size
  left : ∀ (id : ℕ) (e : Entry α), t.arena[id]? = some e → e.isLeaf = false →
    e.left = (id + 1 : ℕ)

theorem Node.ids_layout (n : Node α) : n.layout.ids = n.preorder.map Node.id := by
  induction n with
  | leaf id w => rfl
  | split id w f x low high ihl ihh => simp [layout, Layout.ids, preorder, Node.id, ihl, ihh]

/-- A tree that shows an arena is what is unfolded at its root. -/
theorem Arena.subtree?_of_shows {t : Arena α} {n : Node α} (h : n.Shows t) (fuel : ℕ)
    (hfuel : n.size ≤ fuel) : t.subtree? fuel n.id = some n := by
  induction n generalizing fuel with
  | leaf id w =>
    obtain ⟨fuel, rfl⟩ : ∃ m, fuel = m + 1 := ⟨fuel - 1, by simp [Node.size] at hfuel; omega⟩
    obtain ⟨e, he, hleaf, rfl⟩ := h
    simp [subtree?, Node.id, he, hleaf]
  | split id w f x low high ihl ihh =>
    rw [Node.size] at hfuel
    obtain ⟨fuel, rfl⟩ : ∃ m, fuel = m + 1 := ⟨fuel - 1, by omega⟩
    obtain ⟨⟨e, he, hleaf, rfl, rfl, rfl, hl, hh⟩, hlow, hhigh⟩ := h
    have hlow := ihl hlow fuel (by omega)
    have hhigh := ihh hhigh fuel (by omega)
    rw [hl] at hlow
    rw [hh] at hhigh
    simp [subtree?, Node.id, he, hleaf, hlow, hhigh]

/-- The entries of a list stand in an arena from a position on. -/
def Arena.Holds (t : Arena α) (first : ℕ) (es : List (Entry α)) : Prop :=
  ∀ i e, es[i]? = some e → t[first + i]? = some e

namespace Arena.Holds

variable {t : Arena α} {first : ℕ} {es fs : List (Entry α)} {e : Entry α}

theorem toArray (es : List (Entry α)) : Holds es.toArray 0 es := by
  intro i e he
  simpa using he

theorem head (h : t.Holds first (e :: es)) : t[first]? = some e := h 0 e rfl

theorem tail (h : t.Holds first (e :: es)) : t.Holds (first + 1) es := by
  intro i e' he
  rw [Nat.add_right_comm]
  exact h (i + 1) e' he

theorem left (h : t.Holds first (es ++ fs)) : t.Holds first es := by
  intro i e he
  obtain ⟨hi, -⟩ := List.getElem?_eq_some_iff.1 he
  exact h i e (by rw [List.getElem?_append_left hi, he])

theorem right (h : t.Holds first (es ++ fs)) : t.Holds (first + es.length) fs := by
  intro i e he
  rw [Nat.add_assoc]
  exact h _ e (by rw [List.getElem?_append_right (by omega), Nat.add_sub_cancel_left, he])

end Arena.Holds

namespace Growth

/-- The grown tree with its nodes numbered in preorder. -/
def numbered (first : ℕ) : Growth α → Node α
  | leaf w => .leaf first w
  | split w feature threshold low high =>
    .split first w feature threshold (low.numbered (first + 1))
      (high.numbered (first + 1 + low.size))

/-- Every split tests a feature and a threshold of some kind. -/
def AllTests (P : ℕ → α → Prop) : Growth α → Prop
  | leaf _ => True
  | split _ feature threshold low high => P feature threshold ∧ low.AllTests P ∧ high.AllTests P

theorem allTests_true (g : Growth α) : g.AllTests fun _ _ => True := by
  induction g with
  | leaf w => trivial
  | split w f x low high ihl ihh => exact ⟨trivial, ihl, ihh⟩

theorem AllTests.imp {P Q : ℕ → α → Prop} {g : Growth α} (h : g.AllTests P)
    (hPQ : ∀ f x, P f x → Q f x) : g.AllTests Q := by
  induction g with
  | leaf w => trivial
  | split w f x low high ihl ihh => exact ⟨hPQ f x h.1, ihl h.2.1, ihh h.2.2⟩

theorem size_pos (g : Growth α) : 0 < g.size := by
  cases g with
  | leaf w => exact Nat.one_pos
  | split w f x low high => exact Nat.add_pos_left (Nat.add_pos_left Nat.one_pos _) _

@[simp] theorem id_numbered (g : Growth α) (first : ℕ) : (g.numbered first).id = first := by
  cases g <;> rfl

@[simp] theorem size_numbered (g : Growth α) (first : ℕ) : (g.numbered first).size = g.size := by
  induction g generalizing first with
  | leaf w => rfl
  | split w f x low high ihl ihh => simp [numbered, Node.size, size, ihl, ihh]

/-- The numbers of a subtree are a range. -/
theorem ids_numbered (g : Growth α) (first : ℕ) :
    (g.numbered first).preorder.map Node.id = List.range' first g.size := by
  induction g generalizing first with
  | leaf w => rfl
  | split w f x low high ihl ihh =>
    have hsize : 1 + low.size + high.size = low.size + high.size + 1 := by omega
    simp only [numbered, Node.preorder, List.map_cons, List.map_append, ihl, ihh, Node.id, size,
      hsize, List.range'_succ, List.range'_append_1]

theorem nodup_numbered (g : Growth α) (first : ℕ) :
    ((g.numbered first).preorder.map Node.id).Nodup := by
  rw [ids_numbered]
  exact List.nodup_range'

/-- What stands below a node of a numbered tree is numbered in the same way. -/
theorem exists_of_mem_preorder {g : Growth α} {first : ℕ} {n : Node α}
    (h : n ∈ (g.numbered first).preorder) : ∃ (g' : Growth α) (k : ℕ), n = g'.numbered k := by
  induction g generalizing first with
  | leaf w =>
    obtain rfl := List.mem_singleton.1 h
    exact ⟨.leaf w, first, rfl⟩
  | split w f x low high ihl ihh =>
    rw [numbered, Node.preorder, List.mem_cons, List.mem_append] at h
    rcases h with rfl | h | h
    · exact ⟨.split w f x low high, first, rfl⟩
    · exact ihl h
    · exact ihh h

variable [Scalar α]

@[simp] theorem length_entries (g : Growth α) (first : ℕ) : (g.entries first).length = g.size := by
  induction g generalizing first with
  | leaf w => rfl
  | split w f x low high ihl ihh =>
    simp only [entries, size, List.length_cons, List.length_append, ihl, ihh]
    omega

/-- An entry is a leaf or has its children after it, the first one at once. -/
theorem getElem?_entries {g : Growth α} {first i : ℕ} {e : Entry α} {P : ℕ → α → Prop}
    (hg : g.AllTests P) (h : (g.entries first)[i]? = some e) :
    (∃ w, e = Entry.leaf w) ∨ ∃ (right feature : ℕ) (threshold : α) (w : Weights α),
      e = ⟨(first + i + 1 : ℕ), right, feature, threshold, w⟩ ∧ first + i + 1 < first + g.size ∧
        right < first + g.size ∧ P feature threshold := by
  induction g generalizing first i with
  | leaf w =>
    obtain ⟨hi, rfl⟩ := List.getElem?_eq_some_iff.1 h
    obtain rfl : i = 0 := Nat.lt_one_iff.1 hi
    exact .inl ⟨w, rfl⟩
  | split w f x low high ihl ihh =>
    obtain ⟨hP, hlow, hhigh⟩ := hg
    have hlowSize := low.size_pos
    have hhighSize := high.size_pos
    rw [size]
    cases i with
    | zero =>
      obtain rfl := Option.some.inj h
      exact .inr ⟨first + 1 + low.size, f, x, w, rfl, by omega, by omega, hP⟩
    | succ i =>
      rw [entries, List.getElem?_cons_succ] at h
      rcases lt_or_ge i low.size with hi | hi
      · rw [List.getElem?_append_left (by rwa [length_entries])] at h
        refine (ihl hlow h).imp_right ?_
        rintro ⟨right, feature, threshold, w', rfl, hleft, hright, hP'⟩
        exact ⟨right, feature, threshold, w', by congr 1; push_cast; ring, by omega, by omega, hP'⟩
      · rw [List.getElem?_append_right (by rwa [length_entries]), length_entries] at h
        refine (ihh hhigh h).imp_right ?_
        rintro ⟨right, feature, threshold, w', rfl, hleft, hright, hP'⟩
        have hplace : first + 1 + low.size + (i - low.size) = first + (i + 1) := by omega
        rw [hplace] at hleft ⊢
        exact ⟨right, feature, threshold, w', rfl, by omega, by omega, hP'⟩

/-- The numbered tree lays out the entries where they stand. -/
theorem follows_numbered {g : Growth α} {first : ℕ} {t : Arena α}
    (h : t.Holds first (g.entries first)) : (g.numbered first).layout.Follows t.links := by
  induction g generalizing first with
  | leaf w =>
    have he := h.head
    exact ⟨by simp [Arena.links_left, he, Entry.leaf], by simp [Arena.links_right, he, Entry.leaf]⟩
  | split w f x low high ihl ihh =>
    have he := h.head
    have hbranches := h.tail
    have hhigh := hbranches.right
    rw [length_entries] at hhigh
    refine ⟨?_, ?_, ihl hbranches.left, ihh hhigh⟩
    · simp [Arena.links_left, he]
    · simp [Arena.links_right, he]

/-- The numbered tree shows its entries. -/
theorem shows_numbered {g : Growth α} {first : ℕ} {t : Arena α}
    (h : t.Holds first (g.entries first)) : (g.numbered first).Shows t := by
  induction g generalizing first with
  | leaf w => exact ⟨Entry.leaf w, h.head, rfl, rfl⟩
  | split w f x low high ihl ihh =>
    have hbranches := h.tail
    have hhigh := hbranches.right
    rw [length_entries] at hhigh
    refine ⟨⟨_, h.head, ?_, rfl, rfl, rfl, ?_, ?_⟩, ihl hbranches.left, ihh hhigh⟩
    · simp [Entry.isLeaf]
      omega
    · rw [id_numbered]
      rfl
    · rw [id_numbered]
      rfl

@[simp] theorem size_arena (g : Growth α) : g.arena.size = g.size := by
  simp [arena]

/-- A grown tree with finite thresholds is accepted. -/
theorem exists_tree {g : Growth α} (hg : g.AllTests fun _ x => Scalar.isFinite x = true) :
    ∃ tree, g.tree? = .ok tree := by
  have hholds : g.arena.Holds 0 (g.entries 0) := .toArray _
  have hentries : ∀ e ∈ g.arena, e.InOrder g.arena.size := by
    intro e he
    obtain ⟨i, hi⟩ := Array.getElem?_of_mem he
    rw [size_arena]
    rcases getElem?_entries hg (by simpa [arena] using hi) with
      ⟨w, rfl⟩ | ⟨r, f, x, w, rfl, hl, hr, hx⟩
    · exact .inl ⟨rfl, rfl⟩
    · refine .inr ⟨Int.natCast_nonneg _, ?_, Int.natCast_nonneg _, ?_, Int.natCast_nonneg _, hx⟩
      · exact Int.ofNat_lt.2 (by omega)
      · exact Int.ofNat_lt.2 (by omega)
  have hsize : 0 < g.arena.size := by
    rw [size_arena]
    exact g.size_pos
  have hspans : (g.numbered 0).layout.Spans g.arena.links g.arena.size := by
    refine ⟨follows_numbered hholds, ?_, ?_⟩
    · rw [Node.root_layout, id_numbered]
    · rw [Node.ids_layout, ids_numbered, size_arena, List.range_eq_range']
  have hlinks := (Arena.linkFault?_eq_none_iff_spans (Arena.binary_of_inOrder hentries) hsize).2
    ⟨_, hspans⟩
  have hvalid : g.arena.fault? = none := Arena.fault?_eq_none_iff.2 ⟨hsize, hentries, hlinks⟩
  exact ⟨⟨g.arena, hvalid⟩, Tree.ofArena?_eq_ok_iff.2 rfl⟩

variable {g : Growth α} {tree : Tree α}

theorem arena_eq (h : g.tree? = .ok tree) : tree.arena = g.arena := Tree.ofArena?_eq_ok_iff.1 h

/-- Unfolding the arena of a grown tree gives the tree, numbered. -/
theorem root_eq (h : g.tree? = .ok tree) : tree.root = g.numbered 0 := by
  have hshows : (g.numbered 0).Shows g.arena := shows_numbered (.toArray _)
  have hsize : (g.numbered 0).size ≤ g.arena.size := by simp
  have hunfold := Arena.subtree?_of_shows hshows _ hsize
  rw [id_numbered] at hunfold
  rw [Tree.root, arena_eq h, hunfold, Option.getD_some]

theorem inPreorder (h : g.tree? = .ok tree) : Tree.InPreorder tree := by
  have harena := arena_eq h
  refine ⟨?_, ?_, ?_⟩
  · rw [root_eq h, ids_numbered, Tree.size, harena, size_arena, List.range_eq_range']
  · intro n hn
    rw [root_eq h] at hn
    obtain ⟨g', k, rfl⟩ := exists_of_mem_preorder hn
    rw [ids_numbered, id_numbered, size_numbered]
  · intro id e he hleaf
    rw [harena] at he
    rcases getElem?_entries g.allTests_true (by simpa [arena] using he) with
      ⟨w, rfl⟩ | ⟨r, f, x, w, rfl, -⟩
    · cases hleaf
    · simp

end Growth

end ClauseTriage
