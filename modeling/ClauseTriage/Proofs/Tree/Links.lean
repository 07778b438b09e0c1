import ClauseTriage.Tree.Basic
import Mathlib.Data.List.Nodup

/-!
# Links and layouts

The two child lists of a stored tree, the ways down along them, and the finite binary trees of
positions that follow them. Where no position repeats, a layout gives each of its positions exactly
one way from the root.
-/
namespace ClauseTriage

/-- The children of every position, the one for small values on the left. -/
structure Links where
  left : List Int
  right : List Int

namespace Links

/-- The child on one side of a position; `true` is the side of small values. -/
def child? (k : Links) (low : Bool) (id : Nat) : Option Nat :=
  match (if low then k.left else k.right)[id]? with
  | some c => if 0 ≤ c then some c.toNat else none
  | none => none

/-- Where a way down from a position ends. -/
def follow? (k : Links) : List Bool → Nat → Option Nat
  | [], id => some id
  | low :: way, id => (k.child? low id).bind (k.follow? way)

/-- A position without children. -/
def IsEnd (k : Links) (id : Nat) : Prop := k.left[id]? = some (-1) ∧ k.right[id]? = some (-1)

/-- A position with two children below a bound. -/
def IsFork (k : Links) (size id : Nat) : Prop :=
  ∃ l r : Nat, l < size ∧ r < size ∧ k.left[id]? = some (l : Int) ∧ k.right[id]? = some (r : Int)

/-- Every position has two children in range, or none. -/
def Binary (k : Links) (size : Nat) : Prop := ∀ id < size, k.IsEnd id ∨ k.IsFork size id

/-- Every position is reached from the first one by exactly one way. -/
def OneWay (k : Links) (size : Nat) : Prop :=
  ∀ id < size, ∃! way, k.follow? way 0 = some id

variable {k : Links}

theorem child?_of_left {id c : Nat} (h : k.left[id]? = some (c : Int)) :
    k.child? true id = some c := by
  simp [child?, h]

theorem child?_of_right {id c : Nat} (h : k.right[id]? = some (c : Int)) :
    k.child? false id = some c := by
  simp [child?, h]

theorem IsEnd.child? {id : Nat} (h : k.IsEnd id) (low : Bool) : k.child? low id = none := by
  cases low <;> simp [Links.child?, h.1, h.2]

/-- Along binary links no child is out of range. -/
theorem Binary.child?_lt {size id c : Nat} {low : Bool} (hb : k.Binary size) (hid : id < size)
    (h : k.child? low id = some c) : c < size := by
  rcases hb id hid with hend | ⟨l, r, hl, hr, hleft, hright⟩
  · simp [hend.child?] at h
  · cases low with
    | true =>
      obtain rfl : l = c := by simpa [child?_of_left hleft] using h
      exact hl
    | false =>
      obtain rfl : r = c := by simpa [child?_of_right hright] using h
      exact hr

theorem Binary.follow?_lt {size id c : Nat} {way : List Bool} (hb : k.Binary size) (hid : id < size)
    (h : k.follow? way id = some c) : c < size := by
  induction way generalizing id with
  | nil =>
    obtain rfl : id = c := by simpa [follow?] using h
    exact hid
  | cons low way ih =>
    obtain ⟨j, hj, hrest⟩ := Option.bind_eq_some_iff.1 h
    exact ih (hb.child?_lt hid hj) hrest

theorem follow?_append (way rest : List Bool) (id : Nat) :
    k.follow? (way ++ rest) id = (k.follow? way id).bind (k.follow? rest) := by
  induction way generalizing id with
  | nil => simp [follow?]
  | cons low way ih =>
    cases h : k.child? low id with
    | none => simp [follow?, h]
    | some c => simp [follow?, h, ih]

end Links

/-- A finite binary tree of positions. -/
inductive Layout where
  | leaf (id : Nat)
  | split (id : Nat) (low high : Layout)

namespace Layout

def root : Layout → Nat
  | leaf id => id
  | split id .. => id

@[simp] theorem root_leaf (id : Nat) : (leaf id).root = id := rfl

@[simp] theorem root_split (id : Nat) (low high : Layout) : (split id low high).root = id := rfl

/-- Positions in preorder. -/
def ids : Layout → List Nat
  | leaf id => [id]
  | split id low high => id :: (low.ids ++ high.ids)

/-- Every position has the children that the links give it. -/
def Follows (k : Links) : Layout → Prop
  | leaf id => k.IsEnd id
  | split id low high =>
    k.left[id]? = some (low.root : Int) ∧ k.right[id]? = some (high.root : Int) ∧
      low.Follows k ∧ high.Follows k

/-- A layout of all positions below a bound, each once, from position 0. -/
def Spans (k : Links) (size : Nat) (l : Layout) : Prop :=
  l.Follows k ∧ l.root = 0 ∧ l.ids.Perm (List.range size)

/-- Ways from the root with the positions at their ends. -/
def ways : Layout → List (List Bool × Nat)
  | leaf id => [([], id)]
  | split id low high =>
    ([], id) :: (low.ways.map (fun w => (true :: w.1, w.2)) ++
      high.ways.map fun w => (false :: w.1, w.2))

theorem ways_map_snd (l : Layout) : l.ways.map Prod.snd = l.ids := by
  induction l with
  | leaf id => rfl
  | split id low high ihl ihh => simp [ways, ids, ← ihl, ← ihh, Function.comp_def]

variable {k : Links}

/-- The ways of a layout are the ways along the links. -/
theorem Follows.mem_ways_iff {l : Layout} (h : l.Follows k) (way : List Bool) (id : Nat) :
    (way, id) ∈ l.ways ↔ k.follow? way l.root = some id := by
  induction l generalizing way with
  | leaf j =>
    cases way with
    | nil => simp [ways, Links.follow?, eq_comm]
    | cons low way => simp [ways, Links.follow?, Links.IsEnd.child? h]
  | split j lowTree highTree ihl ihh =>
    obtain ⟨hl, hr, hlow, hhigh⟩ := h
    cases way with
    | nil => simp [ways, Links.follow?, eq_comm]
    | cons low way =>
      cases low with
      | true => simp [ways, Links.follow?, Links.child?_of_left hl, ihl hlow]
      | false => simp [ways, Links.follow?, Links.child?_of_right hr, ihh hhigh]

/-- A position belongs to a layout when some way leads to it. -/
theorem Follows.mem_ids_iff {l : Layout} (h : l.Follows k) (id : Nat) :
    id ∈ l.ids ↔ ∃ way, k.follow? way l.root = some id := by
  simp only [← h.mem_ways_iff, ← ways_map_snd, List.mem_map, Prod.exists, exists_eq_right]

/-- Without a repeated position, two ways to one position are the same. -/
theorem Follows.way_unique {l : Layout} (h : l.Follows k) (hn : l.ids.Nodup)
    {v w : List Bool} {id : Nat} (hv : k.follow? v l.root = some id)
    (hw : k.follow? w l.root = some id) : v = w := by
  rw [← h.mem_ways_iff] at hv hw
  rw [← ways_map_snd] at hn
  have := List.inj_on_of_nodup_map hn hv hw rfl
  exact congrArg Prod.fst this

/-- A layout of all positions gives each of them exactly one way. -/
theorem Spans.oneWay {l : Layout} {size : Nat} (h : l.Spans k size) : k.OneWay size := by
  obtain ⟨hf, hroot, hperm⟩ := h
  intro id hid
  have hmem : id ∈ l.ids := hperm.mem_iff.2 (List.mem_range.2 hid)
  obtain ⟨way, hway⟩ := (hf.mem_ids_iff id).1 hmem
  rw [hroot] at hway
  refine ⟨way, hway, fun other hother => ?_⟩
  exact hf.way_unique (hperm.nodup_iff.2 List.nodup_range) (hroot ▸ hother) (hroot ▸ hway)

end Layout

end ClauseTriage
