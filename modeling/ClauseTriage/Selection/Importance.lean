import ClauseTriage.Powers

/-!
# Importances

How much a feature tells about the labels, as a word of the binary64 format: a word has a sign even
where it stands for no number, and the order of words goes by it.
-/
namespace ClauseTriage

/-- A word of the binary64 format. -/
structure Importance where
  word : UInt64
  deriving DecidableEq, Repr

namespace Importance

def ofFloat (x : Float) : Importance := ⟨x.toBits⟩

/-- The double that the word stands for. -/
def value (i : Importance) : Float := Float.ofBits i.word

/-- A whole number that orders words: from minus infinity over minus zero and zero to infinity. What
is not a number is above all with a plus, and below all with a minus. -/
def key (i : Importance) : Int :=
  let bits := i.word.toNat
  if bits < pow2 63 then bits else -((bits - pow2 63 : Nat) : Int) - 1

end Importance

end ClauseTriage
