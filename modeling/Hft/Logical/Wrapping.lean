import Hft.Logical.Arithmetic
import Mathlib.Algebra.BigOperators.Group.List.Basic
import Mathlib.Tactic.Ring

/-!
# Two's complement sums

A wrapped value is the mathematical one less a number of turns of `2 ^ width`. The
turns may be taken at any point of a sum: what an accumulator holds after wrapping at
every addition is the wrapped sum, and it is the sum itself as soon as the sum, not the
partial sums, is in range.
-/

namespace Hft.Logical.Arithmetic

variable {width : Nat}

/-- A wrapped value is in range. -/
theorem inRange_wrap (positive : 0 < width) (value : Int) : InRange width (wrap width value) := by
  obtain ⟨half, rfl⟩ : ∃ half, width = half + 1 := ⟨width - 1, by omega⟩
  have power : (0 : Int) < 2 ^ half := by positivity
  simp only [InRange, wrap, Nat.add_sub_cancel, pow_succ']
  have low := Int.emod_nonneg (value + 2 ^ half) (show (2 * 2 ^ half : Int) ≠ 0 by omega)
  have high := Int.emod_lt_of_pos (value + 2 ^ half) (show (0 : Int) < 2 * 2 ^ half by omega)
  exact ⟨by omega, by omega⟩

/-- How far a wrapped value is from the mathematical one. -/
theorem exists_wrap_eq (width : Nat) (value : Int) :
    ∃ turns, wrap width value = value - turns * 2 ^ width := by
  refine ⟨(value + 2 ^ (width - 1)) / 2 ^ width, ?_⟩
  rw [wrap, Int.emod_def]
  ring

/-- The reduction is the balanced remainder of the standard library. -/
theorem wrap_eq_bmod (positive : 0 < width) (value : Int) :
    wrap width value = value.bmod (2 ^ width) := by
  obtain ⟨low, high⟩ := inRange_wrap positive value
  obtain ⟨turns, moved⟩ := exists_wrap_eq width value
  obtain ⟨half, rfl⟩ : ∃ half, width = half + 1 := ⟨width - 1, by omega⟩
  have whole : ((2 ^ (half + 1) : Nat) : Int) = 2 * 2 ^ half := by
    push_cast
    ring
  simp only [Nat.add_sub_cancel] at low high
  symm
  rw [Int.bmod_eq_iff (by positivity), whole]
  refine ⟨by omega, by omega, -turns, ?_⟩
  rw [moved]
  ring

section Sums

variable (positive : 0 < width)
include positive

@[simp] theorem wrap_wrap_add (left right : Int) :
    wrap width (wrap width left + right) = wrap width (left + right) := by
  simp only [wrap_eq_bmod positive, Int.bmod_add_bmod]

@[simp] theorem wrap_add_wrap (left right : Int) :
    wrap width (left + wrap width right) = wrap width (left + right) := by
  simp only [wrap_eq_bmod positive, Int.add_bmod_bmod]

@[simp] theorem wrap_neg_wrap (value : Int) :
    wrap width (-wrap width value) = wrap width (-value) := by
  simp only [wrap_eq_bmod positive, Int.bmod_neg_bmod]

end Sums

/-- An accumulator that wraps at every step holds the wrapped total. -/
theorem foldl_wrap {α : Type} {step : Int → α → Int} {term : α → Int}
    (steps : ∀ held item, step (wrap width held) item = wrap width (held + term item))
    (items : List α) (held : Int) :
    items.foldl step (wrap width held) = wrap width (held + (items.map term).sum) := by
  induction items generalizing held with
  | nil => simp
  | cons item rest ih => rw [List.foldl_cons, steps, ih, List.map_cons, List.sum_cons, add_assoc]

end Hft.Logical.Arithmetic
