import ClauseTriage.Json.Parser
import ClauseTriage.Json.Printer
import Mathlib.Data.List.Forall2
import Mathlib.Tactic.IntervalCases

/-!
# JSON texts

The escapes of a text are read back: a quoted text is read to its closing quote, as the text that it
was made from.
-/
namespace ClauseTriage.Json

/-- A piece that stands for a character: the character, or the unit of a control character. -/
def Piece.Means (p : Piece) (c : Char) : Prop := p = .char c ∨ (p = .unit c.toNat ∧ c.toNat < 0x20)

/-- Four hexadecimal digits of a control character. -/
theorem unit?_control {n : ℕ} (hn : n < 0x20) (r : List Char) :
    unit? (Decimal.zeros (4 - (Nat.toDigits 16 n).length) ++ Nat.toDigits 16 n ++ r) =
      some (n, r) := by
  interval_cases n <;> rfl

section Escapes

variable {c e : Char} {n fuel : ℕ} {s r : List Char}

theorem pieces?_short (h : escape? e = some c) :
    pieces? (fuel + 1) ('\\' :: e :: r) = (pieces? fuel r).map fun x => (.char c :: x.1, x.2) := by
  have hunit : e ≠ 'u' := by
    rintro rfl
    cases h
  rw [pieces?, h]
  · cases pieces? fuel r <;> simp
  · exact hunit

theorem pieces?_unit (h : unit? s = some (n, r)) :
    pieces? (fuel + 1) ('\\' :: 'u' :: s) = (pieces? fuel r).map fun x => (.unit n :: x.1, x.2) := by
  rw [pieces?, h]
  cases hr : pieces? fuel r <;> simp [hr]

theorem pieces?_plain (hquote : c ≠ '"') (hslash : c ≠ '\\') (h : 0x20 ≤ c.toNat) :
    pieces? (fuel + 1) (c :: r) = (pieces? fuel r).map fun x => (.char c :: x.1, x.2) := by
  rw [pieces?]
  · rw [if_neg (by omega)]
    cases pieces? fuel r <;> rfl
  · exact hquote
  · exact fun _ heq _ => hslash heq
  · exact fun _ _ heq _ => hslash heq

/-- An escaped character is read as one piece. -/
theorem pieces?_escapeChar (c : Char) :
    ∃ p : Piece, p.Means c ∧ ∀ fuel r, pieces? (fuel + 1) (escapeChar c ++ r) =
      (pieces? fuel r).map fun x => (p :: x.1, x.2) := by
  unfold escapeChar
  split
  · exact ⟨.char '"', .inl rfl, fun _ _ => pieces?_short rfl⟩
  · exact ⟨.char '\\', .inl rfl, fun _ _ => pieces?_short rfl⟩
  · exact ⟨.char '\n', .inl rfl, fun _ _ => pieces?_short rfl⟩
  · exact ⟨.char '\r', .inl rfl, fun _ _ => pieces?_short rfl⟩
  · exact ⟨.char '\t', .inl rfl, fun _ _ => pieces?_short rfl⟩
  · rename_i hquote hslash _ _ _
    split
    · rename_i hback
      have hc : Char.ofNat 8 = c := hback ▸ Char.ofNat_toNat c
      exact ⟨.char c, .inl rfl, fun _ _ => pieces?_short (congrArg some hc)⟩
    · split
      · rename_i hfeed
        have hc : Char.ofNat 12 = c := hfeed ▸ Char.ofNat_toNat c
        exact ⟨.char c, .inl rfl, fun _ _ => pieces?_short (congrArg some hc)⟩
      · split
        · rename_i hcontrol
          exact ⟨.unit c.toNat, .inr ⟨rfl, hcontrol⟩, fun _ r => pieces?_unit (unit?_control hcontrol r)⟩
        · rename_i hplain
          exact ⟨.char c, .inl rfl, fun _ _ => pieces?_plain hquote hslash (by omega)⟩

/-- An escaped text is read, one piece for each of its characters. -/
theorem pieces?_escaped (cs rest : List Char) (hfuel : cs.length < fuel) :
    ∃ ps, pieces? fuel (cs.flatMap escapeChar ++ '"' :: rest) = some (ps, rest) ∧
      List.Forall₂ Piece.Means ps cs := by
  induction cs generalizing fuel with
  | nil =>
    obtain ⟨fuel, rfl⟩ := Nat.exists_eq_add_of_lt hfuel
    exact ⟨[], by simp [pieces?], .nil⟩
  | cons c cs ih =>
    obtain ⟨fuel, rfl⟩ : ∃ k, fuel = k + 1 := ⟨fuel - 1, by omega⟩
    obtain ⟨ps, hread, hps⟩ := ih (show cs.length < fuel by simpa using hfuel)
    obtain ⟨p, hp, hpiece⟩ := pieces?_escapeChar c
    refine ⟨p :: ps, ?_, .cons hp hps⟩
    rw [List.flatMap_cons, List.append_assoc, hpiece, hread, Option.map_some]

/-- A unit of a control character is no half of a pair. -/
theorem joinPieces?_unit (hn : n < 0x20) (ps : List Piece) :
    joinPieces? (.unit n :: ps) = (joinPieces? ps).map (Char.ofNat n :: ·) := by
  have hhigh : ¬(0xD800 ≤ n ∧ n < 0xDC00) := by omega
  have hlow : ¬(0xDC00 ≤ n ∧ n < 0xE000) := by omega
  have hneither : ¬(0xD800 ≤ n ∧ n < 0xE000) := by omega
  cases ps with
  | nil => simp [joinPieces?, hneither]
  | cons p ps =>
    cases p with
    | char c => simp [joinPieces?, hneither]
    | unit low => rw [joinPieces?, if_neg hhigh, if_neg hlow]

theorem joinPieces?_means {ps : List Piece} {cs : List Char} (h : List.Forall₂ Piece.Means ps cs) :
    joinPieces? ps = some cs := by
  induction h with
  | nil => rfl
  | cons hp _ ih =>
    rcases hp with rfl | ⟨rfl, hcontrol⟩
    · rw [joinPieces?, ih, Option.map_some]
    · rw [joinPieces?_unit hcontrol, ih, Option.map_some, Char.ofNat_toNat]

theorem escapeChar_ne_nil (c : Char) : escapeChar c ≠ [] := by
  unfold escapeChar
  repeat' split
  all_goals simp

theorem length_le_flatMap_escapeChar (cs : List Char) :
    cs.length ≤ (cs.flatMap escapeChar).length := by
  induction cs with
  | nil => exact le_rfl
  | cons c cs ih =>
    have := List.length_pos_iff.2 (escapeChar_ne_nil c)
    rw [List.flatMap_cons, List.length_append, List.length_cons]
    omega

/-- A quoted text is read as it was. -/
theorem text?_escaped (s : String) (rest : List Char) :
    text? (s.toList.flatMap escapeChar ++ '"' :: rest) = some (some s, rest) := by
  have hfuel : s.toList.length < (s.toList.flatMap escapeChar ++ '"' :: rest).length + 1 := by
    have := length_le_flatMap_escapeChar s.toList
    rw [List.length_append]
    omega
  obtain ⟨ps, hread, hps⟩ := pieces?_escaped s.toList rest hfuel
  rw [text?, hread, Option.map_some]
  dsimp only
  rw [joinPieces?_means hps, Option.map_some, String.ofList_toList]

end Escapes

end ClauseTriage.Json
