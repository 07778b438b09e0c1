import ClauseTriage.Proofs.Tree.Acceptance

/-!
# What a refusal says

Five lists that are no tree are refused with an error, and what the error says is true: a fault of a
node by itself is one that the first faulty node has, a position said to be reached twice has two
ways to it, and a position said to be unreachable is the first without a way, when every other one
has at most one. Some error is true exactly of the lists that are refused.
-/
namespace ClauseTriage

variable {α : Type}

namespace Links

/-- Some way leads to the position. -/
def Reaches (k : Links) (id : ℕ) : Prop := ∃ way, k.follow? way 0 = some id

/-- Two ways lead to the position; one of them may go through it before it ends there. -/
def ReachesTwice (k : Links) (id : ℕ) : Prop :=
  ∃ v w, v ≠ w ∧ k.follow? v 0 = some id ∧ k.follow? w 0 = some id

end Links

/-- A walk that ends has marked the positions that some way leads to, and no second way leads to any
of them. -/
theorem Arena.marks_of_walk {t : Arena α} (hb : t.links.Binary t.size) {done : Array Bool}
    (h : t.walk (Array.replicate t.size false) [0] = .ok done) :
    (∀ (j : ℕ) (hj : j < done.toList.length),
      j < t.size ∧ (done.toList[j] = true ↔ t.links.Reaches j)) ∧
    ∀ j, t.links.Reaches j → ∃! way, t.links.follow? way 0 = some j := by
  obtain ⟨l, hfollows, hroot, hnodup, -, hmarks⟩ := exists_layout_of_walk hb h
  constructor
  · intro j hj
    have hmark := hmarks j
    rw [← Array.getElem?_toList, List.getElem?_eq_getElem hj, eq_comm,
      Option.ite_none_right_eq_some, Option.some.injEq] at hmark
    refine ⟨hmark.1, ?_⟩
    rw [← hmark.2, decide_eq_true_iff, hfollows.mem_ids_iff, hroot]
    rfl
  · rintro j ⟨way, hway⟩
    refine ⟨way, hway, fun other hother => ?_⟩
    exact hfollows.way_unique hnodup (hroot ▸ hother) (hroot ▸ hway)

/-- Neither child is the mark of a leaf. -/
def Entry.IsSplit (e : Entry α) : Prop := e.left ≠ -1 ∧ e.right ≠ -1

variable [Scalar α]

namespace Arena

/-- Every entry is in order by itself. -/
def InOrder (t : Arena α) : Prop := ∀ e ∈ t, e.InOrder t.size

/-- The first entry that is not in order by itself stands at a position, and it has a fault. -/
def FirstFault (t : Arena α) (id : ℕ) (fault : Entry α → Prop) : Prop :=
  (∃ e, t[id]? = some e ∧ ¬e.InOrder t.size ∧ fault e) ∧
    ∀ earlier < id, ∀ e, t[earlier]? = some e → e.InOrder t.size

end Arena

/-- What an error says of an arena. -/
def TreeError.TrueOf (t : Arena α) : TreeError α → Prop
  | .empty => t.size = 0
  | .lengths .. => False
  | .notTwoClasses .. => False
  | .halfLeaf id => t.FirstFault id fun e => e.left = -1 ↔ e.right ≠ -1
  | .childOutOfRange id child size => size = t.size ∧ t.FirstFault id fun e =>
      e.IsSplit ∧ (child = e.left ∨ child = e.right) ∧ (child < 0 ∨ (t.size : ℤ) ≤ child)
  | .negativeFeature id feature => t.FirstFault id fun e =>
      e.IsSplit ∧ feature = e.feature ∧ feature < 0
  | .notFinite id threshold => t.FirstFault id fun e =>
      e.IsSplit ∧ threshold = e.threshold ∧ Scalar.isFinite threshold = false
  | .reachedTwice id => t.InOrder ∧ t.links.ReachesTwice id
  | .unreachable id => t.InOrder ∧
      (∀ j, t.links.Reaches j → ∃! way, t.links.follow? way 0 = some j) ∧
      id < t.size ∧ ¬t.links.Reaches id ∧ ∀ earlier < id, t.links.Reaches earlier

variable {t : Arena α} {error : TreeError α} {id : ℕ}

/-- The fault found in the first entry that is not in order is one that it has. -/
theorem Entry.trueOf_of_fault? {e : Entry α} (he : t[id]? = some e)
    (hbefore : ∀ earlier < id, ∀ d, t[earlier]? = some d → d.InOrder t.size)
    (h : e.fault? t.size id = some error) : error.TrueOf t := by
  have hnot : ¬e.InOrder t.size := by
    rw [← Entry.fault?_eq_none_iff, h]
    simp
  have hfirst {fault : Entry α → Prop} (hfault : fault e) : t.FirstFault id fault :=
    ⟨⟨e, he, hnot, hfault⟩, hbefore⟩
  unfold Entry.fault? at h
  split at h
  · rename_i hhalf
    obtain rfl := Option.some.inj h
    exact hfirst (by grind)
  rename_i hboth
  split at h
  · cases h
  rename_i hleaf
  have hsplit : e.IsSplit := by
    unfold IsSplit
    grind [isLeaf]
  split at h
  · rename_i hleft
    obtain rfl := Option.some.inj h
    exact ⟨rfl, hfirst ⟨hsplit, .inl rfl, hleft⟩⟩
  split at h
  · rename_i hright
    obtain rfl := Option.some.inj h
    exact ⟨rfl, hfirst ⟨hsplit, .inr rfl, hright⟩⟩
  split at h
  · rename_i hfeature
    obtain rfl := Option.some.inj h
    exact hfirst ⟨hsplit, rfl, hfeature⟩
  split at h
  · rename_i hfinite
    obtain rfl := Option.some.inj h
    exact hfirst ⟨hsplit, rfl, by simpa using hfinite⟩
  · cases h

namespace Arena

theorem FirstFault.not_inOrder {fault : Entry α → Prop} (h : t.FirstFault id fault) :
    ¬t.InOrder := by
  obtain ⟨⟨e, he, hfault, -⟩, -⟩ := h
  exact fun hall => hfault (hall e (Array.mem_of_getElem? he))

theorem trueOf_of_entryFault? (h : t.entryFault? = some error) : error.TrueOf t := by
  obtain ⟨before, ⟨e, id⟩, after, hsplit, hfault, hbefore⟩ := List.findSome?_eq_some_iff.1 h
  obtain ⟨front, back, hentries, rfl, hback⟩ := List.zipIdx_eq_append_iff.1 hsplit
  obtain ⟨head, rest, rfl, hhead, -⟩ := List.zipIdx_eq_cons_iff.1 hback.symm
  obtain ⟨rfl, rfl⟩ := Prod.mk.inj hhead
  rw [Nat.zero_add] at hfault
  apply Entry.trueOf_of_fault? _ _ hfault
  · rw [← Array.getElem?_toList, hentries, List.getElem?_append_right le_rfl, Nat.sub_self]
    rfl
  · intro earlier hlt d hd
    rw [← Array.getElem?_toList, hentries, List.getElem?_append_left hlt] at hd
    exact Entry.fault?_eq_none_iff.1 (hbefore _ (List.mk_mem_zipIdx_iff_getElem?.2 hd))

theorem trueOf_of_linkFault? (hsize : 0 < t.size) (hall : t.InOrder)
    (h : t.linkFault? = some error) : error.TrueOf t := by
  have hb := binary_of_inOrder hall
  unfold linkFault? at h
  cases hwalk : t.walk (Array.replicate t.size false) [0] with
  | error id =>
    rw [hwalk] at h
    obtain rfl := Option.some.inj h
    exact ⟨hall, walk_two_ways hb (by simp) (.start hsize) hwalk⟩
  | ok done =>
    obtain ⟨hmarks, honce⟩ := marks_of_walk hb hwalk
    rw [hwalk] at h
    obtain ⟨id, hid, rfl⟩ := Option.map_eq_some_iff.1 h
    obtain ⟨hlength, hunseen, hseen⟩ := List.findIdx?_eq_some_iff_getElem.1 hid
    obtain ⟨hlt, hmark⟩ := hmarks id hlength
    refine ⟨hall, honce, hlt, ?_, fun earlier hearlier => ?_⟩
    · rw [← hmark]
      simpa using hunseen
    · rw [← (hmarks earlier (hearlier.trans hlength)).2]
      simpa using hseen earlier hearlier

theorem trueOf_of_fault? (h : t.fault? = some error) : error.TrueOf t := by
  unfold fault? at h
  split at h
  · rename_i hsize
    obtain rfl := Option.some.inj h
    exact hsize
  · rename_i hsize
    cases hentry : t.entryFault? with
    | some fault =>
      rw [hentry, Option.orElse_eq_orElse, Option.orElse_some] at h
      obtain rfl := Option.some.inj h
      exact trueOf_of_entryFault? hentry
    | none =>
      rw [hentry, Option.orElse_eq_orElse, Option.orElse_none] at h
      exact trueOf_of_linkFault? (Nat.pos_of_ne_zero hsize) (entryFault?_eq_none_iff.1 hentry) h

/-- No error is true of an arena without a fault. -/
theorem not_trueOf_of_fault? (h : t.fault? = none) (error : TreeError α) : ¬error.TrueOf t := by
  obtain ⟨hsize, hall, hlinks⟩ := fault?_eq_none_iff.1 h
  have hone := (linkFault?_eq_none_iff_oneWay (binary_of_inOrder hall) hsize).1 hlinks
  intro htrue
  cases error with
  | empty => exact hsize.ne' htrue
  | lengths => exact htrue
  | notTwoClasses => exact htrue
  | halfLeaf id => exact htrue.not_inOrder hall
  | childOutOfRange id child size => exact htrue.2.not_inOrder hall
  | negativeFeature id feature => exact htrue.not_inOrder hall
  | notFinite id threshold => exact htrue.not_inOrder hall
  | reachedTwice id =>
    obtain ⟨-, v, w, hne, hv, hw⟩ := htrue
    have hid := (binary_of_inOrder hall).follow?_lt hsize hv
    exact hne ((hone id hid).unique hv hw)
  | unreachable id =>
    obtain ⟨-, -, hid, hnot, -⟩ := htrue
    obtain ⟨way, hway, -⟩ := hone id hid
    exact hnot ⟨way, hway⟩

end Arena

/-- Lists of one length with two weights for each node are stored by an arena. An error that refuses
them is true of it, and they are accepted exactly when no error is. -/
theorem Tree.ofLists?_tells_true_faults (left right feature : List Int) (threshold : List α)
    (values : List (List α)) (hleft : left.length = feature.length)
    (hright : right.length = feature.length) (hthreshold : threshold.length = feature.length)
    (hvalues : values.length = feature.length) (hpairs : ∀ value ∈ values, value.length = 2) :
    ∃ t : Arena α, t.Stores left right feature threshold values ∧
      (∀ error, Tree.ofLists? left right feature threshold values = .error error →
        error.TrueOf t) ∧
      ((∃ tree, Tree.ofLists? left right feature threshold values = .ok tree) ↔
        ∀ error : TreeError α, ¬error.TrueOf t) := by
  obtain ⟨t, ht⟩ := Arena.exists_stores hleft hright hthreshold hvalues hpairs
  refine ⟨t, ht, ?_, ?_⟩
  · intro error herror
    rw [ht.ofLists?_eq, Tree.ofArena?_eq_error_iff] at herror
    exact Arena.trueOf_of_fault? herror
  · rw [ht.ofLists?_eq]
    constructor
    · rintro ⟨tree, htree⟩
      rw [Tree.ofArena?_eq_ok_iff] at htree
      exact Arena.not_trueOf_of_fault? (htree ▸ tree.valid)
    · intro hnone
      rw [exists_ok_iff]
      intro error herror
      rw [Tree.ofArena?_eq_error_iff] at herror
      exact hnone error (Arena.trueOf_of_fault? herror)

/-- A way around to the root, two ways to position 3, and none to position 4. What is said is that
the root is reached twice. -/
theorem Tree.ofLists?_tells_true_faults_around :
    ∃ t : Arena Float, t.Stores [1, 0, 3, -1, -1] [2, 3, 3, -1, -1] [0, 1, 0, -2, -2]
        [0.5, 1.5, 2.5, -2.0, -2.0] [[4.0, 3.0], [2.0, 0.0], [2.0, 3.0], [0.0, 3.0], [2.0, 0.0]] ∧
      t.InOrder ∧ t.links.ReachesTwice 0 := by
  obtain ⟨arena, harena⟩ : ∃ arena : Arena Float, arena = .ofLists [1, 0, 3, -1, -1]
    [2, 3, 3, -1, -1] [0, 1, 0, -2, -2] [0.5, 1.5, 2.5, -2.0, -2.0]
    [⟨4.0, 3.0⟩, ⟨2.0, 0.0⟩, ⟨2.0, 3.0⟩, ⟨0.0, 3.0⟩, ⟨2.0, 0.0⟩] := ⟨_, rfl⟩
  have hstores : arena.Stores [1, 0, 3, -1, -1] [2, 3, 3, -1, -1] [0, 1, 0, -2, -2]
      [0.5, 1.5, 2.5, -2.0, -2.0]
      [[4.0, 3.0], [2.0, 0.0], [2.0, 3.0], [0.0, 3.0], [2.0, 0.0]] := by
    rw [harena]
    exact Arena.stores_ofLists rfl rfl rfl rfl
  have hfault : arena.fault? = some (.reachedTwice 0) := by
    rw [harena]
    decide +kernel
  have hrefused := hstores.ofLists?_eq.trans (Tree.ofArena?_eq_error_iff.2 hfault)
  obtain ⟨t, ht, htrue, -⟩ := Tree.ofLists?_tells_true_faults [1, 0, 3, -1, -1] [2, 3, 3, -1, -1]
    [0, 1, 0, -2, -2] [0.5, 1.5, 2.5, -2.0, (-2.0 : Float)]
    [[4.0, 3.0], [2.0, 0.0], [2.0, 3.0], [0.0, 3.0], [2.0, 0.0]] rfl rfl rfl rfl (by simp)
  exact ⟨t, ht, htrue _ hrefused⟩

end ClauseTriage
