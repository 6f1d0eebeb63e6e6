import Mathlib.Algebra.BigOperators.Group.List.Basic
import Mathlib.Algebra.Order.Group.Unbundled.Int
import Mathlib.Data.List.Induction
import Mathlib.Tactic.Linarith
import Mathlib.Tactic.Ring

/-!
# Truncated running averages

A volume-weighted average kept as one integer: each new quantity is averaged in by
multiplying the old average out again, adding, and dividing with truncation toward
zero. The result stays between the prices (`le_averaged`, `averaged_le`). What the
divisions drop is gone for good: it is added up in `Tally`, and the average is the
truncated average of the whole exactly while less than one unit of price per unit of
quantity has been dropped (`Accounts.eq_iff`).
-/

namespace Hft.Logical

/-- The average price of `held + qty` units, after `qty` more at `price`. -/
def averaged (average held price qty : Int) : Int :=
  (average * held + price * qty).tdiv (held + qty)

/-- The first units have the average of their own price. -/
@[simp] theorem averaged_zero (average price : Int) {qty : Int} (positive : 0 < qty) :
    averaged average 0 price qty = price := by
  rw [averaged, mul_zero, zero_add, zero_add, Int.mul_tdiv_cancel price positive.ne']

/-- Units at the average price leave it alone. -/
@[simp] theorem averaged_self (price : Int) {held qty : Int} (positive : 0 < held + qty) :
    averaged price held price qty = price := by
  rw [averaged, ← mul_add, Int.mul_tdiv_cancel price positive.ne']

section Bounds

variable {average held price qty : Int} (holds : 0 ≤ held) (positive : 0 < qty)
include holds positive

/-- Truncation never takes an average below both of its parts, for prices of either sign. -/
theorem le_averaged {low : Int} (ofAverage : low ≤ average) (ofPrice : low ≤ price) :
    low ≤ averaged average held price qty := by
  apply Int.le_tdiv_of_mul_le (by omega)
  have old := mul_le_mul_of_nonneg_right ofAverage holds
  have new := mul_le_mul_of_nonneg_right ofPrice positive.le
  calc low * (held + qty) = low * held + low * qty := by ring
    _ ≤ average * held + price * qty := add_le_add old new

theorem averaged_le {high : Int} (ofAverage : average ≤ high) (ofPrice : price ≤ high) :
    averaged average held price qty ≤ high := by
  have whole : 0 < held + qty := by omega
  have old := mul_le_mul_of_nonneg_right ofAverage holds
  have new := mul_le_mul_of_nonneg_right ofPrice positive.le
  calc averaged average held price qty
      ≤ (high * (held + qty)).tdiv (held + qty) := by
        apply Int.tdiv_le_tdiv whole
        linarith
    _ = high := Int.mul_tdiv_cancel high whole.ne'

end Bounds

/-! ## What the divisions drop -/

/-- Cost and quantity so far, and what a running average of them has dropped. -/
structure Tally where
  cost : Int
  held : Int
  dropped : Int

namespace Tally

/-- One more price and quantity. What is divided is the cost less what was dropped before. -/
def add (tally : Tally) (item : Int × Int) : Tally where
  cost := tally.cost + item.1 * item.2
  held := tally.held + item.2
  dropped := tally.dropped +
    (tally.cost + item.1 * item.2 - tally.dropped) % (tally.held + item.2)

/-- The tally of a sequence of prices and quantities. -/
def of (items : List (Int × Int)) : Tally := items.foldl add ⟨0, 0, 0⟩

theorem of_concat (items : List (Int × Int)) (item : Int × Int) :
    of (items ++ [item]) = (of items).add item := by
  rw [of, List.foldl_append]
  rfl

theorem cost_of (items : List (Int × Int)) :
    (of items).cost = (items.map fun item => item.1 * item.2).sum := by
  induction items using List.reverseRecOn with
  | nil => rfl
  | append_singleton items item ih => simp [of_concat, add, ih]

theorem held_of (items : List (Int × Int)) : (of items).held = (items.map Prod.snd).sum := by
  induction items using List.reverseRecOn with
  | nil => rfl
  | append_singleton items item ih => simp [of_concat, add, ih]

/-- The first division is exact, and one more drops less than it divides by. -/
theorem dropped_of_two {first second : Int × Int} (firstPos : 0 < first.2)
    (secondPos : 0 < second.2) :
    (of [first, second]).dropped < (of [first, second]).held := by
  have whole : 0 < first.2 + second.2 := by omega
  simp only [of, List.foldl_cons, List.foldl_nil, add, zero_add, sub_zero, Int.mul_emod_left]
  exact Int.emod_lt_of_pos _ whole

end Tally

/-- An average accounts for a tally: multiplied out, it is the cost less what was dropped. -/
structure Accounts (average : Int) (tally : Tally) : Prop where
  total : average * tally.held + tally.dropped = tally.cost
  average_nonneg : 0 ≤ average
  held_nonneg : 0 ≤ tally.held
  dropped_nonneg : 0 ≤ tally.dropped

namespace Accounts

variable {average : Int} {tally : Tally}

theorem averaged (accounts : Accounts average tally) {price qty : Int} (price_nonneg : 0 ≤ price)
    (positive : 0 < qty) :
    Accounts (averaged average tally.held price qty) (tally.add (price, qty)) := by
  have whole : 0 < tally.held + qty := by
    have := accounts.held_nonneg
    omega
  have old := mul_nonneg accounts.average_nonneg accounts.held_nonneg
  have new := mul_nonneg price_nonneg positive.le
  have total := accounts.total
  have numerator : average * tally.held + price * qty =
      tally.cost + price * qty - tally.dropped := by omega
  have division : Logical.averaged average tally.held price qty =
      (tally.cost + price * qty - tally.dropped) / (tally.held + qty) := by
    rw [Logical.averaged, numerator, Int.tdiv_eq_ediv_of_nonneg (by omega)]
  have parts := Int.mul_ediv_add_emod (tally.cost + price * qty - tally.dropped) (tally.held + qty)
  have rest := Int.emod_nonneg (tally.cost + price * qty - tally.dropped) whole.ne'
  constructor
  · rw [division]
    simp only [Tally.add]
    linarith
  · rw [division]
    exact Int.ediv_nonneg (by omega) whole.le
  · exact whole.le
  · exact add_nonneg accounts.dropped_nonneg rest

/-- The average is the truncated average of the whole exactly while less has been dropped than
one per unit of quantity. -/
theorem eq_iff (accounts : Accounts average tally) (holds : 0 < tally.held) :
    average = tally.cost.tdiv tally.held ↔ tally.dropped < tally.held := by
  have old := mul_nonneg accounts.average_nonneg accounts.held_nonneg
  have dropped := accounts.dropped_nonneg
  rw [← accounts.total, Int.tdiv_eq_ediv_of_nonneg (by omega), eq_comm,
    Int.ediv_eq_iff_of_pos holds]
  constructor
  · rintro ⟨_, above⟩
    omega
  · intro few
    exact ⟨by omega, by omega⟩

end Accounts

end Hft.Logical
