import ClauseTriage.Proofs.Attempts
import ClauseTriage.Proofs.Tree.Walk

/-!
# Which lists are trees

Five lists make a tree exactly when they are of one length and not empty, every node is by itself
in order, and all nodes lie on one finite binary tree whose root is the first of them.
-/
namespace ClauseTriage

variable {α : Type}

namespace Arena

/-- A walk that ends has met a layout of positions, each of them once, and marked these only. -/
theorem exists_layout_of_walk {t : Arena α} (hb : t.links.Binary t.size) {done : Array Bool}
    (h : t.walk (Array.replicate t.size false) [0] = .ok done) :
    ∃ l : Layout, l.Follows t.links ∧ l.root = 0 ∧ l.ids.Nodup ∧ (∀ id ∈ l.ids, id < t.size) ∧
      ∀ id, done[id]? = if id < t.size then some (decide (id ∈ l.ids)) else none := by
  obtain ⟨ls, hc⟩ := walk_covers hb (by simp) h
  obtain ⟨l, rest, rfl, hroot, hrest⟩ := List.map_eq_cons_iff.1 hc.roots
  obtain rfl : rest = [] := by simpa using hrest
  have hlt : ∀ id ∈ l.ids, id < t.size := by
    intro id hid
    have := hc.fresh id (by simpa using hid)
    simpa [Array.getElem?_replicate] using this
  refine ⟨l, hc.follows l (by simp), hroot, by simpa using hc.nodup, hlt, fun id => ?_⟩
  have hmark := hc.marks id
  simp only [List.flatMap_cons, List.flatMap_nil, List.append_nil, Array.getElem?_replicate] at hmark
  rw [hmark]
  by_cases hid : id ∈ l.ids
  · simp [hid, hlt id hid]
  · simp [hid]

/-- The links of a binary arena have no fault when every position has exactly one way to it, and
then there is a layout of all positions. -/
theorem spans_of_walk {t : Arena α} (hb : t.links.Binary t.size) {done : Array Bool}
    (h : t.walk (Array.replicate t.size false) [0] = .ok done) (hall : ∀ seen ∈ done, seen = true) :
    ∃ l : Layout, l.Spans t.links t.size := by
  obtain ⟨l, hfollows, hroot, hnodup, hlt, hmarks⟩ := exists_layout_of_walk hb h
  have hmem : ∀ id < t.size, id ∈ l.ids := by
    intro id hid
    have hmark := hmarks id
    rw [if_pos hid] at hmark
    simpa using hall _ (Array.mem_of_getElem? hmark)
  refine ⟨l, hfollows, hroot, ?_⟩
  apply (List.perm_ext_iff_of_nodup hnodup List.nodup_range).2
  intro id
  rw [List.mem_range]
  exact ⟨hlt id, hmem id⟩

/-- The walk of a binary arena with one way to every position ends, and it meets all of them. -/
theorem walk_of_oneWay {t : Arena α} (hb : t.links.Binary t.size) (hsize : 0 < t.size)
    (ho : t.links.OneWay t.size) :
    ∃ done, t.walk (Array.replicate t.size false) [0] = .ok done ∧ ∀ seen ∈ done, seen = true := by
  cases h : t.walk (Array.replicate t.size false) [0] with
  | error id =>
    -- a walk that is stopped has found two ways
    obtain ⟨v, w, hne, hv, hw⟩ := walk_two_ways hb (by simp) (.start hsize) h
    obtain ⟨way, -, hunique⟩ := ho id (hb.follow?_lt hsize hv)
    exact absurd ((hunique v hv).trans (hunique w hw).symm) hne
  | ok done =>
    refine ⟨done, rfl, fun seen hseen => ?_⟩
    obtain ⟨l, hfollows, hroot, -, -, hmarks⟩ := exists_layout_of_walk hb h
    obtain ⟨id, hid⟩ := Array.mem_iff_getElem?.1 hseen
    rw [hmarks id, Option.ite_none_right_eq_some, Option.some.injEq] at hid
    obtain ⟨hlt, rfl⟩ := hid
    obtain ⟨way, hway, -⟩ := ho id hlt
    exact decide_eq_true ((hfollows.mem_ids_iff id).2 ⟨way, hroot ▸ hway⟩)

theorem linkFault?_eq_none_iff_walk {t : Arena α} :
    t.linkFault? = none ↔
      ∃ done, t.walk (Array.replicate t.size false) [0] = .ok done ∧ ∀ seen ∈ done, seen = true := by
  unfold linkFault?
  cases t.walk (Array.replicate t.size false) [0] with
  | error id => simp
  | ok done => simp [List.findIdx?_eq_none_iff]

theorem linkFault?_eq_none_iff_spans {t : Arena α} (hb : t.links.Binary t.size)
    (hsize : 0 < t.size) :
    t.linkFault? = none ↔ ∃ l : Layout, l.Spans t.links t.size := by
  rw [linkFault?_eq_none_iff_walk]
  constructor
  · rintro ⟨done, h, hall⟩
    exact spans_of_walk hb h hall
  · rintro ⟨l, hl⟩
    exact walk_of_oneWay hb hsize hl.oneWay

theorem linkFault?_eq_none_iff_oneWay {t : Arena α} (hb : t.links.Binary t.size)
    (hsize : 0 < t.size) :
    t.linkFault? = none ↔ t.links.OneWay t.size := by
  constructor
  · intro h
    obtain ⟨l, hl⟩ := (linkFault?_eq_none_iff_spans hb hsize).1 h
    exact hl.oneWay
  · intro h
    exact linkFault?_eq_none_iff_walk.2 (walk_of_oneWay hb hsize h)

end Arena

/-- An entry is in order by itself: an end, or a fork with a feature and a finite threshold. -/
def Entry.InOrder [Scalar α] (size : Nat) (e : Entry α) : Prop :=
  (e.left = -1 ∧ e.right = -1) ∨
    (0 ≤ e.left ∧ e.left < size ∧ 0 ≤ e.right ∧ e.right < size ∧ 0 ≤ e.feature ∧
      Scalar.isFinite e.threshold = true)

theorem Weights.ofList?_eq_some_iff {value : List α} {w : Weights α} :
    Weights.ofList? value = some w ↔ value = w.toList := by
  obtain ⟨discard, keep⟩ := w
  unfold Weights.ofList?
  split
  · simp [Weights.toList]
  · rename_i hne
    simp only [reduceCtorEq, false_iff, Weights.toList]
    exact hne _ _

/-- The weights of the nodes are read where each of them is a pair, and nothing is lost. -/
theorem Tree.weightsOf?_eq_ok_iff {values : List (List α)} {ws : List (Weights α)} :
    Tree.weightsOf? values = .ok ws ↔ ws.map Weights.toList = values := by
  calc Tree.weightsOf? values = .ok ws
      ↔ List.Forall₂ (fun entry w => entry.1 = w.toList) values.zipIdx ws := by
        rw [Tree.weightsOf?, mapM_eq_ok_iff]
        apply iff_of_eq (congrArg (fun R => List.Forall₂ R values.zipIdx ws) ?_)
        funext ⟨value, node⟩ w
        rw [← Weights.ofList?_eq_some_iff]
        cases h : Weights.ofList? value <;> simp [h]
    _ ↔ List.Forall₂ (fun value w => value = w.toList) (values.zipIdx.map Prod.fst) ws := by
        rw [List.forall₂_map_left_iff]
    _ ↔ List.Forall₂ (· = ·) values (ws.map Weights.toList) := by
        rw [List.zipIdx_map_fst, List.forall₂_map_right_iff]
    _ ↔ ws.map Weights.toList = values := by
        rw [List.forall₂_eq_eq_eq, eq_comm]

/-- The five lists that an arena stores. -/
structure Arena.Stores (t : Arena α) (left right feature : List Int) (threshold : List α)
    (values : List (List α)) : Prop where
  left : t.toList.map (·.left) = left
  right : t.toList.map (·.right) = right
  feature : t.toList.map (·.feature) = feature
  threshold : t.toList.map (·.threshold) = threshold
  weights : t.toList.map (·.weights.toList) = values

theorem Arena.stores_ofLists {left right feature : List Int} {threshold : List α}
    {ws : List (Weights α)} (hl : left.length = feature.length)
    (hr : right.length = feature.length) (ht : threshold.length = feature.length)
    (hw : ws.length = feature.length) :
    (Arena.ofLists left right feature threshold ws).Stores left right feature threshold
      (ws.map Weights.toList) := by
  obtain ⟨rows, hrows⟩ : ∃ rows, rows = (left.zip right).zip (feature.zip (threshold.zip ws)) :=
    ⟨_, rfl⟩
  have hcolumn {β : Type} (f : Entry α → β) :
      (Arena.ofLists left right feature threshold ws).toList.map f =
        rows.map fun row => f ⟨row.1.1, row.1.2, row.2.1, row.2.2.1, row.2.2.2⟩ := by
    rw [hrows, Arena.ofLists, List.map_map]
    rfl
  have hsides : rows.map Prod.fst = left.zip right := by
    rw [hrows, List.map_fst_zip]
    simp only [List.length_zip]
    omega
  have hdata : rows.map Prod.snd = feature.zip (threshold.zip ws) := by
    rw [hrows, List.map_snd_zip]
    simp only [List.length_zip]
    omega
  have hends : (feature.zip (threshold.zip ws)).map Prod.snd = threshold.zip ws := by
    rw [List.map_snd_zip]
    simp only [List.length_zip]
    omega
  constructor
  · rw [hcolumn]
    change rows.map (Prod.fst ∘ Prod.fst) = left
    rw [← List.map_map, hsides, List.map_fst_zip (by omega)]
  · rw [hcolumn]
    change rows.map (Prod.snd ∘ Prod.fst) = right
    rw [← List.map_map, hsides, List.map_snd_zip (by omega)]
  · rw [hcolumn]
    change rows.map (Prod.fst ∘ Prod.snd) = feature
    rw [← List.map_map, hdata, List.map_fst_zip]
    simp only [List.length_zip]
    omega
  · rw [hcolumn]
    change rows.map ((Prod.fst ∘ Prod.snd) ∘ Prod.snd) = threshold
    rw [← List.map_map, hdata, ← List.map_map, hends, List.map_fst_zip (by omega)]
  · rw [hcolumn]
    change rows.map (((Weights.toList ∘ Prod.snd) ∘ Prod.snd) ∘ Prod.snd) = ws.map Weights.toList
    rw [← List.map_map, hdata, ← List.map_map, hends, ← List.map_map, List.map_snd_zip (by omega)]

/-- Lists of one length, with two weights for each node, are stored by an arena. -/
theorem Arena.exists_stores {left right feature : List Int} {threshold : List α}
    {values : List (List α)} (hl : left.length = feature.length)
    (hr : right.length = feature.length) (ht : threshold.length = feature.length)
    (hv : values.length = feature.length) (hpairs : ∀ value ∈ values, value.length = 2) :
    ∃ t : Arena α, t.Stores left right feature threshold values := by
  obtain ⟨ws, rfl⟩ : ∃ ws : List (Weights α), ws.map Weights.toList = values := by
    have hmem : values ∈ Set.range (List.map (Weights.toList (α := α))) := by
      rw [Set.range_list_map]
      intro value hvalue
      obtain ⟨discard, keep, rfl⟩ := List.length_eq_two.1 (hpairs value hvalue)
      exact ⟨⟨discard, keep⟩, rfl⟩
    exact hmem
  exact ⟨_, Arena.stores_ofLists hl hr ht (by simpa using hv)⟩

theorem Arena.Stores.length_eq {t : Arena α} {left right feature : List Int} {threshold : List α}
    {values : List (List α)} (h : t.Stores left right feature threshold values) :
    left.length = t.size ∧ right.length = t.size ∧ feature.length = t.size ∧
      threshold.length = t.size ∧ values.length = t.size := by
  simp [← h.left, ← h.right, ← h.feature, ← h.threshold, ← h.weights]

/-- An arena is made of the lists that it stores. -/
theorem Arena.Stores.eq_ofLists {t : Arena α} {left right feature : List Int} {threshold : List α}
    {values : List (List α)} (h : t.Stores left right feature threshold values) :
    t = Arena.ofLists left right feature threshold (t.toList.map (·.weights)) := by
  simp only [← h.left, ← h.right, ← h.feature, ← h.threshold, Arena.ofLists]
  apply Array.ext <;> simp

theorem Arena.Stores.links_eq {t : Arena α} {left right feature : List Int} {threshold : List α}
    {values : List (List α)} (h : t.Stores left right feature threshold values) :
    t.links = ⟨left, right⟩ := by
  rw [Arena.links, h.left, h.right]

variable [Scalar α]

theorem Entry.fault?_eq_none_iff {size node : Nat} {e : Entry α} :
    e.fault? size node = none ↔ e.InOrder size := by
  unfold Entry.fault? Entry.InOrder Entry.isLeaf
  by_cases hl : e.left = -1
  · by_cases hr : e.right = -1
    · simp [hl, hr]
    · simp [hl, hr]
  · by_cases hr : e.right = -1
    · simp [hl, hr]
    · simp only [hl, hr, bne_self_eq_false, Bool.false_eq_true, if_false, false_and, false_or,
        beq_eq_false_iff_ne.2 hl, beq_eq_false_iff_ne.2 hr]
      grind

theorem Arena.entryFault?_eq_none_iff {t : Arena α} :
    t.entryFault? = none ↔ ∀ e ∈ t, e.InOrder t.size := by
  simp only [Arena.entryFault?, List.findSome?_eq_none_iff, Prod.forall, Entry.fault?_eq_none_iff]
  constructor
  · intro h e he
    obtain ⟨id, hid, rfl⟩ := Array.mem_iff_getElem.1 he
    exact h _ id (by simp [List.mem_zipIdx_iff_getElem?, hid])
  · intro h e id he
    have := List.fst_mem_of_mem_zipIdx he
    exact h e (by simpa using this)

/-- Entries that are in order have binary links. -/
theorem Arena.binary_of_inOrder {t : Arena α} (h : ∀ e ∈ t, e.InOrder t.size) :
    t.links.Binary t.size := by
  intro id hid
  have he : t[id]? = some t[id] := Array.getElem?_eq_getElem hid
  rcases h t[id] (Array.getElem_mem hid) with ⟨hl, hr⟩ | ⟨hl, hl', hr, hr', -⟩
  · left
    exact ⟨by simp [Arena.links_left, he, hl], by simp [Arena.links_right, he, hr]⟩
  · right
    refine ⟨t[id].left.toNat, t[id].right.toNat, by omega, by omega, ?_, ?_⟩
    · simp [Arena.links_left, he, Int.toNat_of_nonneg hl]
    · simp [Arena.links_right, he, Int.toNat_of_nonneg hr]

theorem Arena.fault?_eq_none_iff {t : Arena α} :
    t.fault? = none ↔ 0 < t.size ∧ (∀ e ∈ t, e.InOrder t.size) ∧ t.linkFault? = none := by
  unfold Arena.fault?
  by_cases hsize : t.size = 0
  · simp [hsize]
  · simp [hsize, Nat.pos_of_ne_zero hsize, ← Arena.entryFault?_eq_none_iff]

theorem Tree.ofArena?_eq_ok_iff {t : Arena α} {tree : Tree α} :
    Tree.ofArena? t = .ok tree ↔ tree.arena = t := by
  obtain ⟨arena, valid⟩ := tree
  unfold Tree.ofArena?
  split
  · simp [eq_comm]
  · rename_i e he
    simp only [reduceCtorEq, false_iff]
    rintro rfl
    simp [valid] at he

theorem Tree.ofArena?_eq_error_iff {t : Arena α} {error : TreeError α} :
    Tree.ofArena? t = .error error ↔ t.fault? = some error := by
  unfold Tree.ofArena?
  split
  · rename_i hvalid
    simp [hvalid]
  · rename_i e he
    simp [he]

/-- The lists that an arena stores are read as the arena is. -/
theorem Arena.Stores.ofLists?_eq {t : Arena α} {left right feature : List Int} {threshold : List α}
    {values : List (List α)} (h : t.Stores left right feature threshold values) :
    Tree.ofLists? left right feature threshold values = Tree.ofArena? t := by
  obtain ⟨hleft, hright, hfeature, hthreshold, hvalues⟩ := h.length_eq
  have hws : Tree.weightsOf? values = .ok (t.toList.map (·.weights)) := by
    rw [Tree.weightsOf?_eq_ok_iff, List.map_map]
    exact h.weights
  simp only [Tree.ofLists?, bind, Except.bind, throw, throwThe, MonadExceptOf.throw]
  by_cases hsize : t.size = 0
  · have hfault : t.fault? = some .empty := if_pos hsize
    rw [if_pos (by omega), Tree.ofArena?_eq_error_iff.2 hfault]
  · rw [if_neg (by omega), if_neg (by omega), hws]
    exact congrArg Tree.ofArena? h.eq_ofLists.symm

/-- Five lists are read as the tree that stores them, if there is one. -/
theorem Tree.ofLists?_eq_ok_iff {left right feature : List Int} {threshold : List α}
    {values : List (List α)} {tree : Tree α} :
    Tree.ofLists? left right feature threshold values = .ok tree ↔
      tree.arena.Stores left right feature threshold values := by
  constructor
  · intro h
    simp only [Tree.ofLists?, bind, Except.bind, throw, throwThe, MonadExceptOf.throw] at h
    split at h
    · simp at h
    · split at h
      · simp at h
      · rename_i hlengths
        push Not at hlengths
        obtain ⟨hl, hr, ht, hv⟩ := hlengths
        obtain ⟨ws, hws, harena⟩ := bind_eq_ok_iff.1 h
        rw [Tree.weightsOf?_eq_ok_iff] at hws
        rw [Tree.ofArena?_eq_ok_iff] at harena
        rw [harena, ← hws]
        exact Arena.stores_ofLists hl hr ht (by simpa [← hws] using hv)
  · intro h
    rw [h.ofLists?_eq, Tree.ofArena?_eq_ok_iff]

/-- What five lists must be, the way from the first node to the others apart: not empty, of one
length, with two weights for each node, and every node without children or with two in range, a
feature and a finite threshold. -/
structure Tree.ListsInOrder (left right feature : List Int) (threshold : List α)
    (values : List (List α)) : Prop where
  nonempty : feature ≠ []
  left_length : left.length = feature.length
  right_length : right.length = feature.length
  threshold_length : threshold.length = feature.length
  values_length : values.length = feature.length
  pairs : ∀ value ∈ values, value.length = 2
  nodes : ∀ id < feature.length, (⟨left, right⟩ : Links).IsEnd id ∨
    ((⟨left, right⟩ : Links).IsFork feature.length id ∧ (∃ f, feature[id]? = some f ∧ 0 ≤ f) ∧
      ∃ x, threshold[id]? = some x ∧ Scalar.isFinite x = true)

/-- The rule for the nodes of five lists is the rule for the entries of the arena that stores
them. -/
theorem Arena.Stores.inOrder_iff {t : Arena α} {left right feature : List Int} {threshold : List α}
    {values : List (List α)} (h : t.Stores left right feature threshold values) :
    (∀ e ∈ t, e.InOrder t.size) ↔ ∀ id < t.size, (⟨left, right⟩ : Links).IsEnd id ∨
      ((⟨left, right⟩ : Links).IsFork t.size id ∧ (∃ f, feature[id]? = some f ∧ 0 ≤ f) ∧
        ∃ x, threshold[id]? = some x ∧ Scalar.isFinite x = true) := by
  rw [Array.forall_mem_iff_forall_getElem]
  apply forall₂_congr
  intro id hid
  have he : t[id]? = some t[id] := Array.getElem?_eq_getElem hid
  simp only [Entry.InOrder, Links.IsEnd, Links.IsFork, ← h.left, ← h.right, ← h.feature,
    ← h.threshold, List.getElem?_map, Array.getElem?_toList, he, Option.map_some, Option.some.injEq,
    exists_eq_left']
  apply or_congr Iff.rfl
  constructor
  · rintro ⟨hl, hl', hr, hr', hf, hx⟩
    exact ⟨⟨t[id].left.toNat, t[id].right.toNat, by omega, by omega, by omega, by omega⟩, hf, hx⟩
  · rintro ⟨⟨l, r, hl, hr, hl', hr'⟩, hf, hx⟩
    exact ⟨by omega, by omega, by omega, by omega, hf, hx⟩

/-- Lists that are in order are stored by an arena. -/
theorem Tree.ListsInOrder.exists_stores {left right feature : List Int} {threshold : List α}
    {values : List (List α)} (h : ListsInOrder left right feature threshold values) :
    ∃ t : Arena α, t.Stores left right feature threshold values :=
  Arena.exists_stores h.left_length h.right_length h.threshold_length h.values_length h.pairs

/-- What an arena without a fault stores is in order. -/
theorem Arena.Stores.listsInOrder {t : Arena α} {left right feature : List Int} {threshold : List α}
    {values : List (List α)} (h : t.Stores left right feature threshold values) (hsize : 0 < t.size)
    (hentries : ∀ e ∈ t, e.InOrder t.size) :
    Tree.ListsInOrder left right feature threshold values := by
  obtain ⟨hl, hr, hf, ht, hv⟩ := h.length_eq
  refine ⟨?_, hl.trans hf.symm, hr.trans hf.symm, ht.trans hf.symm, hv.trans hf.symm, ?_, ?_⟩
  · exact List.ne_nil_of_length_pos (by omega)
  · rw [← h.weights]
    simp [Weights.toList]
  · rw [hf]
    exact h.inOrder_iff.1 hentries

/-- Lists are read as a tree when they are in order and their links have no fault. -/
theorem Tree.exists_ofLists?_iff {left right feature : List Int} {threshold : List α}
    {values : List (List α)} {p : Links → Nat → Prop}
    (hp : ∀ t : Arena α, t.links.Binary t.size → 0 < t.size →
      (t.linkFault? = none ↔ p t.links t.size)) :
    (∃ tree, Tree.ofLists? left right feature threshold values = .ok tree) ↔
      ListsInOrder left right feature threshold values ∧ p ⟨left, right⟩ feature.length := by
  simp only [Tree.ofLists?_eq_ok_iff]
  constructor
  · rintro ⟨tree, h⟩
    obtain ⟨hsize, hentries, hlinks⟩ := Arena.fault?_eq_none_iff.1 tree.valid
    constructor
    · exact h.listsInOrder hsize hentries
    · rw [← h.links_eq, h.length_eq.2.2.1]
      exact (hp _ (Arena.binary_of_inOrder hentries) hsize).1 hlinks
  · rintro ⟨horder, hlinks⟩
    obtain ⟨t, h⟩ := horder.exists_stores
    obtain ⟨-, -, hfeature, -⟩ := h.length_eq
    rw [← h.links_eq, hfeature] at hlinks
    have hsize : 0 < t.size := hfeature ▸ List.length_pos_iff.2 horder.nonempty
    have hentries := h.inOrder_iff.2 (hfeature ▸ horder.nodes)
    have hfault := (hp t (Arena.binary_of_inOrder hentries) hsize).2 hlinks
    exact ⟨⟨t, Arena.fault?_eq_none_iff.2 ⟨hsize, hentries, hfault⟩⟩, h⟩

/-- Five lists are accepted exactly when they are in order and their nodes lie, each once, on one
finite binary tree with the first node as its root; in other words, when every node is reached from
the first by exactly one way. The tree that is read stores the lists as they were given. -/
theorem Tree.ofLists?_accepts_rooted_trees (left right feature : List Int) (threshold : List α)
    (values : List (List α)) :
    ((∃ tree, Tree.ofLists? left right feature threshold values = .ok tree) ↔
      ListsInOrder left right feature threshold values ∧
        ∃ l : Layout, l.Spans ⟨left, right⟩ feature.length) ∧
    ((∃ tree, Tree.ofLists? left right feature threshold values = .ok tree) ↔
      ListsInOrder left right feature threshold values ∧
        (⟨left, right⟩ : Links).OneWay feature.length) ∧
    ∀ tree, Tree.ofLists? left right feature threshold values = .ok tree →
      tree.arena.Stores left right feature threshold values := by
  refine ⟨?_, ?_, fun tree => Tree.ofLists?_eq_ok_iff.1⟩
  · exact Tree.exists_ofLists?_iff (p := fun k size => ∃ l : Layout, l.Spans k size) fun t =>
      Arena.linkFault?_eq_none_iff_spans
  · exact Tree.exists_ofLists?_iff (p := Links.OneWay) fun t => Arena.linkFault?_eq_none_iff_oneWay

end ClauseTriage
