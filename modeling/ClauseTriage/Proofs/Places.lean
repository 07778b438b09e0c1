import ClauseTriage.Fit.Cart
import Mathlib

/-!
# Places of numbers

A number has a place on the extended line of rationals, and comparing two numbers compares their
places. What is not a number compares with nothing. Two numbers that are equal are in the same
place and may still be two, as zeros of both signs are.
-/
namespace ClauseTriage

open Scalar

/-- Numbers on the extended line of rationals. -/
class Placed (α : Type) [Scalar α] where
  place : α → WithBot (WithTop ℚ)
  le_iff {x y : α} : le x y = true ↔ isNaN x = false ∧ isNaN y = false ∧ place x ≤ place y
  lt_iff {x y : α} : lt x y = true ↔ isNaN x = false ∧ isNaN y = false ∧ place x < place y
  isFinite_iff {x : α} : isFinite x = true ↔
    isNaN x = false ∧ place x ≠ ⊥ ∧ place x ≠ ((⊤ : WithTop ℚ))

namespace Placed

variable {α : Type} [Scalar α] [Placed α] {x y z : α}

theorem eq_iff : eq x y = true ↔ isNaN x = false ∧ isNaN y = false ∧ place x = place y := by
  rw [eq, Bool.and_eq_true, le_iff, le_iff]
  constructor
  · rintro ⟨⟨hx, hy, hle⟩, -, -, hge⟩
    exact ⟨hx, hy, hle.antisymm hge⟩
  · rintro ⟨hx, hy, heq⟩
    exact ⟨⟨hx, hy, heq.le⟩, hy, hx, heq.ge⟩

theorem isNaN_of_isFinite (h : isFinite x = true) : isNaN x = false := (isFinite_iff.1 h).1

theorem isFinite_congr (h : eq x y = true) : isFinite x = isFinite y := by
  obtain ⟨hx, hy, heq⟩ := eq_iff.1 h
  rw [Bool.eq_iff_iff, isFinite_iff, isFinite_iff, hx, hy, heq]

theorem le_congr (h : eq y z = true) : le x y = le x z := by
  obtain ⟨hy, hz, heq⟩ := eq_iff.1 h
  rw [Bool.eq_iff_iff, le_iff, le_iff, hy, hz, heq]

theorem le_congr_left (h : eq x y = true) : le x z = le y z := by
  obtain ⟨hx, hy, heq⟩ := eq_iff.1 h
  rw [Bool.eq_iff_iff, le_iff, le_iff, hx, hy, heq]

theorem lt_congr (h : eq y z = true) : lt x y = lt x z := by
  obtain ⟨hy, hz, heq⟩ := eq_iff.1 h
  rw [Bool.eq_iff_iff, lt_iff, lt_iff, hy, hz, heq]

theorem le_refl (h : isNaN x = false) : le x x = true := le_iff.2 ⟨h, h, le_rfl⟩

theorem le_trans (h : le x y = true) (h' : le y z = true) : le x z = true := by
  obtain ⟨hx, -, hxy⟩ := le_iff.1 h
  obtain ⟨-, hz, hyz⟩ := le_iff.1 h'
  exact le_iff.2 ⟨hx, hz, hxy.trans hyz⟩

theorem le_of_lt (h : lt x y = true) : le x y = true := by
  obtain ⟨hx, hy, hlt⟩ := lt_iff.1 h
  exact le_iff.2 ⟨hx, hy, hlt.le⟩

theorem lt_trans (h : lt x y = true) (h' : lt y z = true) : lt x z = true := by
  obtain ⟨hx, -, hxy⟩ := lt_iff.1 h
  obtain ⟨-, hz, hyz⟩ := lt_iff.1 h'
  exact lt_iff.2 ⟨hx, hz, hxy.trans hyz⟩

theorem lt_of_lt_of_le (h : lt x y = true) (h' : le y z = true) : lt x z = true := by
  obtain ⟨hx, -, hxy⟩ := lt_iff.1 h
  obtain ⟨-, hz, hyz⟩ := le_iff.1 h'
  exact lt_iff.2 ⟨hx, hz, hxy.trans_le hyz⟩

theorem le_of_not_lt (hx : isNaN x = false) (hy : isNaN y = false) (h : ¬lt y x = true) :
    le x y = true :=
  le_iff.2 ⟨hx, hy, not_lt.1 fun hlt => h (lt_iff.2 ⟨hy, hx, hlt⟩)⟩

theorem lt_irrefl (x : α) : lt x x = false := by
  rw [Bool.eq_false_iff, Ne, lt_iff]
  exact fun h => h.2.2.false

/-- A number that is not above another one is below all that are. -/
theorem lt_of_not_lt_of_lt (hz : isNaN z = false) (h : lt x z = false) (h' : lt x y = true) :
    lt z y = true := by
  obtain ⟨hx, hy, hxy⟩ := lt_iff.1 h'
  refine lt_iff.2 ⟨hz, hy, (not_lt.1 fun hlt => ?_).trans_lt hxy⟩
  rw [lt_iff.2 ⟨hx, hz, hlt⟩] at h
  cases h

/-- Of two numbers one is below the other, or they are equal. -/
theorem lt_or_eq_or_lt (hx : isNaN x = false) (hy : isNaN y = false) :
    lt x y = true ∨ eq x y = true ∨ lt y x = true := by
  simp only [lt_iff, eq_iff, hx, hy, true_and]
  exact lt_trichotomy _ _

theorem eq_of_le (h : le x y = true) (h' : ¬lt x y = true) : eq x y = true := by
  obtain ⟨hx, hy, hle⟩ := le_iff.1 h
  refine eq_iff.2 ⟨hx, hy, hle.antisymm (not_lt.1 fun hlt => h' (lt_iff.2 ⟨hx, hy, hlt⟩))⟩

end Placed

/-- Numbers of which those below the largest finite one are the ones below some place. -/
class Capped (α : Type) [Scalar α] [Placed α] where
  cap : WithBot (WithTop ℚ)
  belowLargest_iff {x : α} : belowLargest x = true ↔ isNaN x = false ∧ Placed.place x < cap

namespace Capped

variable {α : Type} [Scalar α] [Placed α] [Capped α] {x y : α}

theorem isNaN_of_belowLargest (h : belowLargest x = true) : isNaN x = false :=
  (belowLargest_iff.1 h).1

theorem belowLargest_of_lt (h : lt x y = true) (hy : belowLargest y = true) :
    belowLargest x = true := by
  obtain ⟨hx, -, hlt⟩ := Placed.lt_iff.1 h
  exact belowLargest_iff.2 ⟨hx, hlt.trans (belowLargest_iff.1 hy).2⟩

/-- What is below the largest finite number is below every number that is not. -/
theorem lt_of_not_belowLargest (hx : belowLargest x = true) (hy : ¬belowLargest y = true)
    (hnumber : isNaN y = false) : lt x y = true := by
  obtain ⟨hnx, hlt⟩ := belowLargest_iff.1 hx
  refine Placed.lt_iff.2 ⟨hnx, hnumber, hlt.trans_le (not_lt.1 fun hlt' => hy ?_)⟩
  exact belowLargest_iff.2 ⟨hnumber, hlt'⟩

end Capped

/-- A fraction is its own place. -/
instance : Placed ℚ where
  place q := (q : WithTop ℚ)
  le_iff := by simp [le, isNaN]
  lt_iff := by simp [lt, isNaN]
  isFinite_iff := by simp [isFinite, isNaN]

/-- Sums of fractions do not depend on where they start. -/
theorem sum_eq_listSum (xs : List ℚ) : Scalar.sum xs = xs.sum := List.sum_eq_foldl.symm

/-- There is no largest fraction. -/
instance : Capped ℚ where
  cap := (⊤ : WithTop ℚ)
  belowLargest_iff {x} := by
    have hlt : ((x : WithTop ℚ) : WithBot (WithTop ℚ)) < (⊤ : WithTop ℚ) :=
      WithBot.coe_lt_coe.2 (WithTop.coe_lt_top x)
    exact iff_of_true rfl ⟨rfl, hlt⟩

end ClauseTriage
