import ClauseTriage.Proofs.Json.Numbers
import ClauseTriage.Proofs.Json.Texts

/-!
# Printed documents are read back

The parser inverts the printer: a document whose numbers are read back from their own texts is read
back from its text, at whatever level it is printed.
-/
namespace ClauseTriage.Json

namespace Value

mutual

/-- Every number is read back from its own text, and every text is there. -/
def Legible : Value → Prop
  | number w => ∃ n, w = some n ∧ n.ReadsBack
  | text s => s.isSome
  | array items => ItemsLegible items
  | object fields => FieldsLegible fields
  | _ => True

def ItemsLegible : List Value → Prop
  | [] => True
  | v :: rest => v.Legible ∧ ItemsLegible rest

def FieldsLegible : List (Option String × Value) → Prop
  | [] => True
  | (k, v) :: rest => k.isSome ∧ v.Legible ∧ FieldsLegible rest

end

end Value

section Steps

variable {s s' r rest : List Char} {v : Value} {fuel : ℕ}

theorem value?_skipBlanks (fuel : ℕ) (s : List Char) : value? fuel (skipBlanks s) = value? fuel s := by
  cases fuel with
  | zero => rfl
  | succ fuel => rw [value?, value?, skipBlanks_idem]

theorem items?_skipBlanks (fuel : ℕ) (s : List Char) : items? fuel (skipBlanks s) = items? fuel s := by
  cases fuel with
  | zero => rfl
  | succ fuel => rw [items?, items?, value?_skipBlanks]

theorem fields?_skipBlanks (fuel : ℕ) (s : List Char) :
    fields? fuel (skipBlanks s) = fields? fuel s := by
  cases fuel with
  | zero => rfl
  | succ fuel => rw [fields?, fields?, skipBlanks_idem]

/-- No value begins with a closing bracket. -/
theorem items?_close (fuel : ℕ) (s : List Char) : items? fuel (']' :: s) = none := by
  cases fuel with
  | zero => rfl
  | succ fuel =>
    have hvalue : value? fuel (']' :: s) = none := by
      cases fuel <;> rfl
    rw [items?, hvalue]

theorem fields?_close (fuel : ℕ) (s : List Char) : fields? fuel ('\x7d' :: s) = none := by
  cases fuel <;> rfl

theorem value?_array {items : List Value} (h : items? fuel s = some (items, rest)) :
    value? (fuel + 1) ('[' :: s) = some (.array items, rest) := by
  have hopen : skipBlanks ('[' :: s) = '[' :: s := rfl
  rw [← items?_skipBlanks] at h
  rw [value?]
  simp only [hopen]
  split
  · rename_i heq
    rw [heq, items?_close] at h
    cases h
  · rw [h, Option.map_some]

theorem value?_object {fields : List (Option String × Value)}
    (h : fields? fuel s = some (fields, rest)) :
    value? (fuel + 1) ('\x7b' :: s) = some (.object fields, rest) := by
  have hopen : skipBlanks ('\x7b' :: s) = '\x7b' :: s := rfl
  rw [← fields?_skipBlanks] at h
  rw [value?]
  simp only [hopen]
  split
  · rename_i heq
    rw [heq, fields?_close] at h
    cases h
  · rw [h, Option.map_some]

theorem textOf_append (s : String) (rest : List Char) :
    (textOf s).toList ++ rest = '"' :: (s.toList.flatMap escapeChar ++ '"' :: rest) := by
  simp [textOf]

theorem value?_text (fuel : ℕ) (s : String) (rest : List Char) :
    value? (fuel + 1) ((textOf s).toList ++ rest) = some (.text (some s), rest) := by
  have hopen (t : List Char) :
      value? (fuel + 1) ('"' :: t) = (text? t).map fun x => (.text x.1, x.2) := by
    rw [value?]
    rfl
  rw [textOf_append, hopen, text?_escaped, Option.map_some]

theorem items?_more {items : List Value} (hv : value? fuel s = some (v, r))
    (hr : skipBlanks r = ',' :: s') (hitems : items? fuel s' = some (items, rest)) :
    items? (fuel + 1) s = some (v :: items, rest) := by
  rw [items?, hv]
  dsimp only
  rw [hr]
  change (items? fuel s').map (fun x => (v :: x.1, x.2)) = _
  rw [hitems, Option.map_some]

theorem items?_last (hv : value? fuel s = some (v, r)) (hr : skipBlanks r = ']' :: rest) :
    items? (fuel + 1) s = some ([v], rest) := by
  rw [items?, hv]
  dsimp only
  rw [hr]
  rfl

theorem skipBlanks_quote (s : List Char) : skipBlanks ('"' :: s) = '"' :: s := rfl

theorem skipBlanks_colon (s : List Char) : skipBlanks (':' :: s) = ':' :: s := rfl

theorem fields?_more {fields : List (Option String × Value)} {key : String}
    (hv : value? fuel s = some (v, r)) (hr : skipBlanks r = ',' :: s')
    (hfields : fields? fuel s' = some (fields, rest)) :
    fields? (fuel + 1) ((textOf key).toList ++ ':' :: s) = some ((some key, v) :: fields, rest) := by
  rw [textOf_append, fields?]
  simp only [skipBlanks_quote, text?_escaped, skipBlanks_colon, hv, hr, hfields, Option.map_some]

theorem fields?_last {key : String} (hv : value? fuel s = some (v, r))
    (hr : skipBlanks r = '\x7d' :: rest) :
    fields? (fuel + 1) ((textOf key).toList ++ ':' :: s) = some ([(some key, v)], rest) := by
  rw [textOf_append, fields?]
  simp only [skipBlanks_quote, text?_escaped, skipBlanks_colon, hv, hr]

end Steps

section Printed

open Value

/-- A line break with its indentation is blank. -/
theorem skipBlanks_breakTo (level : ℕ) (s : List Char) :
    skipBlanks ((breakTo level).toList ++ s) = skipBlanks s := by
  apply skipBlanks_append_blank
  rw [skipBlanks, List.dropWhile_eq_nil_iff]
  intro c hc
  simp only [breakTo, String.toList_append, String.toList_ofList, List.mem_append,
    List.mem_replicate] at hc
  rcases hc with hc | ⟨-, rfl⟩
  · obtain rfl : c = '\n' := by simpa using hc
    rfl
  · rfl

theorem items?_breakTo (fuel level : ℕ) (s : List Char) :
    items? fuel ((breakTo level).toList ++ s) = items? fuel s := by
  rw [← items?_skipBlanks, skipBlanks_breakTo, items?_skipBlanks]

theorem fields?_breakTo (fuel level : ℕ) (s : List Char) :
    fields? fuel ((breakTo level).toList ++ s) = fields? fuel s := by
  rw [← fields?_skipBlanks, skipBlanks_breakTo, fields?_skipBlanks]

theorem closed_breakTo (level : ℕ) (s : List Char) : Closed ((breakTo level).toList ++ s) := by
  intro c hc
  right
  simpa [breakTo, eq_comm] using hc

/-- What stands behind the first item of an array is closed. -/
theorem closed_prettyItems (level outer : ℕ) (items : List Value) (s : List Char) :
    Closed ((prettyItems level items).toList ++ ((breakTo outer).toList ++ s)) := by
  cases items with
  | nil =>
    rw [prettyItems]
    exact closed_breakTo outer s
  | cons v items =>
    intro c hc
    left
    simpa [prettyItems, eq_comm] using hc

theorem closed_prettyFields (level outer : ℕ) (fields : List (Option String × Value))
    (s : List Char) :
    Closed ((prettyFields level fields).toList ++ ((breakTo outer).toList ++ s)) := by
  cases fields with
  | nil =>
    rw [prettyFields]
    exact closed_breakTo outer s
  | cons f fields =>
    intro c hc
    left
    simpa [prettyFields, eq_comm] using hc

theorem prettyItems_cons (level : ℕ) (v : Value) (items : List Value) :
    (prettyItems level (v :: items)).toList = ',' :: ((breakTo level).toList ++
      ((v.pretty level).toList ++ (prettyItems level items).toList)) := by
  simp [prettyItems]

theorem prettyFields_cons (level : ℕ) (key : String) (v : Value)
    (fields : List (Option String × Value)) :
    (prettyFields level ((some key, v) :: fields)).toList = ',' :: ((breakTo level).toList ++
      ((textOf key).toList ++ ':' :: ' ' :: ((v.pretty level).toList ++
        (prettyFields level fields).toList))) := by
  simp [prettyFields]

/-- An array is printed as its items are, with a bracket in place of the first comma. -/
theorem pretty_array (level : ℕ) {items : List Value} {t : List Char}
    (ht : (prettyItems (level + 1) items).toList = ',' :: t) :
    ((Value.array items).pretty level).toList = '[' :: (t ++ ((breakTo level).toList ++ [']'])) := by
  cases items with
  | nil => simp [prettyItems] at ht
  | cons v items =>
    rw [prettyItems_cons] at ht
    rw [← (List.cons.inj ht).2]
    simp [pretty]

theorem pretty_object (level : ℕ) {fields : List (Option String × Value)} {t : List Char}
    (hfields : FieldsLegible fields) (ht : (prettyFields (level + 1) fields).toList = ',' :: t) :
    ((Value.object fields).pretty level).toList =
      '\x7b' :: (t ++ ((breakTo level).toList ++ ['\x7d'])) := by
  cases fields with
  | nil => simp [prettyFields] at ht
  | cons f fields =>
    obtain ⟨key, v⟩ := f
    obtain ⟨key, rfl⟩ := Option.isSome_iff_exists.1 hfields.1
    rw [prettyFields_cons] at ht
    rw [← (List.cons.inj ht).2]
    simp [pretty]

theorem exists_prettyFields_cons (level : ℕ) {f : Option String × Value}
    {fields : List (Option String × Value)} (h : FieldsLegible (f :: fields)) :
    ∃ t, (prettyFields level (f :: fields)).toList = ',' :: t := by
  obtain ⟨key, v⟩ := f
  obtain ⟨key, rfl⟩ := Option.isSome_iff_exists.1 h.1
  exact ⟨_, prettyFields_cons level key v fields⟩

-- The induction is on the value. The length of its text bounds the fuel: every call of a reader
-- leaves a bracket, a comma or a line break behind.
mutual

/-- A printed value is read back, and nothing behind it but blanks. -/
theorem value?_pretty (v : Value) (hv : v.Legible) (level fuel : ℕ) {rest : List Char}
    (hrest : Closed rest) (hfuel : (v.pretty level).toList.length < fuel) :
    ∃ r, value? fuel ((v.pretty level).toList ++ rest) = some (v, r) ∧
      skipBlanks r = skipBlanks rest := by
  obtain ⟨fuel, rfl⟩ : ∃ k, fuel = k + 1 := ⟨fuel - 1, by omega⟩
  cases v with
  | null => exact ⟨rest, by rw [pretty, value?]; rfl, rfl⟩
  | bool b => cases b <;> exact ⟨rest, by rw [pretty, value?]; rfl, rfl⟩
  | number w =>
    obtain ⟨n, rfl, hn⟩ := hv
    exact hn.value? fuel hrest
  | text s =>
    obtain ⟨s, rfl⟩ := Option.isSome_iff_exists.1 hv
    exact ⟨rest, value?_text fuel s rest, rfl⟩
  | array items =>
    refine ⟨rest, ?_, rfl⟩
    cases items with
    | nil => rw [pretty, value?]; rfl
    | cons v items =>
      obtain ⟨t, ht⟩ : ∃ t, (prettyItems (level + 1) (v :: items)).toList = ',' :: t :=
        ⟨_, prettyItems_cons (level + 1) v items⟩
      rw [pretty_array level ht] at hfuel ⊢
      rw [List.cons_append, List.append_assoc, List.append_assoc, List.singleton_append]
      apply value?_array
      apply items?_pretty (v :: items) hv (level + 1) level fuel ht
      simp only [List.length_cons, List.length_append] at hfuel
      omega
  | object fields =>
    refine ⟨rest, ?_, rfl⟩
    cases fields with
    | nil => rw [pretty, value?]; rfl
    | cons f fields =>
      obtain ⟨t, ht⟩ := exists_prettyFields_cons (level + 1) hv
      rw [pretty_object level hv ht] at hfuel ⊢
      rw [List.cons_append, List.append_assoc, List.append_assoc, List.singleton_append]
      apply value?_object
      apply fields?_pretty (f :: fields) hv (level + 1) level fuel ht
      simp only [List.length_cons, List.length_append] at hfuel
      omega

/-- Printed items are read back up to the closing bracket. -/
theorem items?_pretty (items : List Value) (h : ItemsLegible items) (level outer fuel : ℕ)
    {t rest : List Char} (ht : (prettyItems level items).toList = ',' :: t)
    (hfuel : t.length < fuel) :
    items? fuel (t ++ ((breakTo outer).toList ++ ']' :: rest)) = some (items, rest) := by
  cases items with
  | nil => simp [prettyItems] at ht
  | cons v items =>
    obtain ⟨fuel, rfl⟩ : ∃ k, fuel = k + 1 := ⟨fuel - 1, by omega⟩
    rw [prettyItems_cons] at ht
    obtain rfl := (List.cons.inj ht).2
    have hbreak : 0 < (breakTo level).toList.length := by simp [breakTo]
    simp only [List.length_append] at hfuel
    obtain ⟨r, hread, hr⟩ := value?_pretty v h.1 level fuel
      (closed_prettyItems level outer items (']' :: rest)) (by omega)
    rw [List.append_assoc, items?_breakTo, List.append_assoc]
    cases items with
    | nil =>
      apply items?_last hread
      rw [hr, prettyItems]
      exact skipBlanks_breakTo outer (']' :: rest)
    | cons w items =>
      have hnext := prettyItems_cons level w items
      rw [hnext] at hread hr hfuel ⊢
      apply items?_more hread hr
      apply items?_pretty (w :: items) h.2 level outer fuel hnext
      rw [List.length_cons] at hfuel
      omega

theorem fields?_pretty (fields : List (Option String × Value)) (h : FieldsLegible fields)
    (level outer fuel : ℕ) {t rest : List Char}
    (ht : (prettyFields level fields).toList = ',' :: t) (hfuel : t.length < fuel) :
    fields? fuel (t ++ ((breakTo outer).toList ++ '\x7d' :: rest)) = some (fields, rest) := by
  cases fields with
  | nil => simp [prettyFields] at ht
  | cons f fields =>
    obtain ⟨key, v⟩ := f
    obtain ⟨fuel, rfl⟩ : ∃ k, fuel = k + 1 := ⟨fuel - 1, by omega⟩
    obtain ⟨hkey, hv, hfields⟩ := h
    obtain ⟨key, rfl⟩ := Option.isSome_iff_exists.1 hkey
    rw [prettyFields_cons] at ht
    obtain rfl := (List.cons.inj ht).2
    simp only [List.length_append, List.length_cons] at hfuel
    obtain ⟨r, hread, hr⟩ := value?_pretty v hv level fuel
      (closed_prettyFields level outer fields ('\x7d' :: rest)) (by omega)
    -- the printer puts a blank behind the colon, which the reader of values skips
    have hread : value? fuel (' ' :: ((v.pretty level).toList ++ ((prettyFields level fields).toList ++
        ((breakTo outer).toList ++ '\x7d' :: rest)))) = some (v, r) := by
      rw [← value?_skipBlanks] at hread ⊢
      exact hread
    rw [List.append_assoc, fields?_breakTo]
    simp only [List.append_assoc, List.cons_append]
    cases fields with
    | nil =>
      apply fields?_last hread
      rw [hr, prettyFields]
      exact skipBlanks_breakTo outer ('\x7d' :: rest)
    | cons g fields =>
      obtain ⟨t, hnext⟩ := exists_prettyFields_cons level hfields
      rw [hnext] at hread hr hfuel ⊢
      apply fields?_more hread hr
      apply fields?_pretty (g :: fields) hfields level outer fuel hnext
      rw [List.length_cons] at hfuel
      omega

end

mutual

/-- A legible value is whole. -/
theorem Value.Legible.isSound (v : Value) (h : v.Legible) : v.isSound = true := by
  cases v with
  | null => rfl
  | bool b => rfl
  | number w =>
    obtain ⟨n, rfl, -⟩ := h
    rfl
  | text s => exact h
  | array items =>
    rw [Value.isSound]
    exact ItemsLegible.itemsSound items h
  | object fields =>
    rw [Value.isSound]
    exact FieldsLegible.fieldsSound fields h

theorem Value.ItemsLegible.itemsSound (items : List Value) (h : ItemsLegible items) :
    itemsSound items = true := by
  cases items with
  | nil => rfl
  | cons v items =>
    rw [Value.itemsSound, Legible.isSound v h.1, ItemsLegible.itemsSound items h.2]
    rfl

theorem Value.FieldsLegible.fieldsSound (fields : List (Option String × Value))
    (h : FieldsLegible fields) : fieldsSound fields = true := by
  cases fields with
  | nil => rfl
  | cons f fields =>
    obtain ⟨key, v⟩ := f
    obtain ⟨hkey, hv, hfields⟩ := h
    rw [Value.fieldsSound, hkey, Legible.isSound v hv, FieldsLegible.fieldsSound fields hfields]
    rfl

end

/-- A legible document is read back from its text. -/
theorem parse?_pretty {v : Value} (hv : v.Legible) (level : ℕ) :
    parse? (v.pretty level) = some v := by
  have hend : Closed [] := by simp [Closed]
  obtain ⟨r, hread, hr⟩ := value?_pretty v hv level (2 * (v.pretty level).toList.length + 2) hend
    (by omega)
  rw [List.append_nil] at hread
  rw [parse?, hread]
  dsimp only
  rw [hr]
  rfl

end Printed

namespace Value

variable {α : Type} {f : α → Value} {xs : List α}

theorem legible_ofList (h : ∀ x ∈ xs, (f x).Legible) : (ofList f xs).Legible := by
  change ItemsLegible (xs.map f)
  induction xs with
  | nil => trivial
  | cons x xs ih =>
    obtain ⟨hx, hxs⟩ := List.forall_mem_cons.1 h
    exact ⟨hx, ih hxs⟩

/-- A list is one deeper than its items. -/
theorem depth_ofList_le {k : ℕ} (h : ∀ x ∈ xs, (f x).depth ≤ k) : (ofList f xs).depth ≤ k + 1 := by
  have hitems : depthOfItems (xs.map f) ≤ k := by
    induction xs with
    | nil => exact Nat.zero_le k
    | cons x xs ih =>
      obtain ⟨hx, hxs⟩ := List.forall_mem_cons.1 h
      exact Nat.max_le.2 ⟨hx, ih hxs⟩
  rw [ofList, depth]
  omega

theorem legible_ofInt {n : ℤ} (hlow : -2 ^ 63 ≤ n) (hhigh : n < 2 ^ 63) : (ofInt n).Legible :=
  ⟨_, rfl, Number.readsBack_whole hlow hhigh⟩

theorem legible_ofFloat {x : Float} (hx : x.isFinite = true) (hread : (Number.real x).ReadsBack) :
    (ofFloat x).Legible := by
  rw [ofFloat, if_pos hx]
  exact ⟨_, rfl, hread⟩

theorem depth_ofFloat (x : Float) : (ofFloat x).depth = 0 := by
  unfold ofFloat
  split <;> rfl

end Value

end ClauseTriage.Json
