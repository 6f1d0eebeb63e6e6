import Hft.Logical.Arithmetic
import Mathlib.Algebra.Order.Group.Unbundled.Int
import Mathlib.Algebra.Order.Ring.Abs

/-!
# Costs at machine widths

Quantities in 32 bits, prices and costs in 64. Where all quantities together fit into 31 bits
and their value at the highest price into 63, so does every product of a price difference and
a quantity on the way, and no computation with them depends on what the machine makes of an
overflow.
-/

namespace Hft.Logical

theorem inRange_64_of_abs {value : Int} (small : |value| < 9223372036854775808) :
    InRange 64 value := by
  obtain ⟨low, high⟩ := abs_lt.mp small
  exact inRange_64 low.le high

/-- Values that the machine holds: a volume in 31 bits, its cost in 63. -/
structure FitsMachine (cap volume : Int) : Prop where
  capNonneg : 0 ≤ cap
  volumeFits : volume < 2147483648
  costFits : cap * volume < 9223372036854775808

section Width

variable {cap volume qty price : Int}

/-- A price difference times a quantity that is held. -/
theorem abs_mul_lt (machine : FitsMachine cap volume) {spread held : Int}
    (priced : |spread| ≤ cap) (within : |held| ≤ volume) :
    |spread * held| < 9223372036854775808 := by
  rw [abs_mul]
  exact (mul_le_mul priced within (abs_nonneg _) machine.capNonneg).trans_lt machine.costFits

theorem abs_sub_le_cap {left right : Int} (leftNonneg : 0 ≤ left) (leftLe : left ≤ cap)
    (rightNonneg : 0 ≤ right) (rightLe : right ≤ cap) : |left - right| ≤ cap := by
  rw [abs_le]
  omega

/-- No price is out of range where a single share is held. -/
theorem FitsMachine.cap_lt (machine : FitsMachine cap volume) (holds : 0 < volume) :
    cap < 9223372036854775808 := by
  have := le_mul_of_one_le_right machine.capNonneg (show 1 ≤ volume by omega)
  have := machine.costFits
  omega

/-- The cost of what is held and of what is added to it. -/
theorem abs_addedCost_lt (machine : FitsMachine cap (volume + qty)) {average held : Int}
    (averageNonneg : 0 ≤ average) (averageLe : average ≤ cap) (holds : 0 ≤ held)
    (within : held ≤ volume) (positive : 0 < qty) (priceNonneg : 0 ≤ price)
    (priceLe : price ≤ cap) : |average * held + price * qty| < 9223372036854775808 := by
  have ownCost : 0 ≤ average * held := mul_nonneg averageNonneg holds
  have fillCost : 0 ≤ price * qty := mul_nonneg priceNonneg positive.le
  rw [abs_of_nonneg (add_nonneg ownCost fillCost)]
  calc average * held + price * qty ≤ cap * held + cap * qty :=
        add_le_add (mul_le_mul_of_nonneg_right averageLe holds)
          (mul_le_mul_of_nonneg_right priceLe positive.le)
    _ = cap * (held + qty) := (mul_add cap held qty).symm
    _ ≤ cap * (volume + qty) := mul_le_mul_of_nonneg_left (by omega) machine.capNonneg
    _ < 9223372036854775808 := machine.costFits

theorem FitsMachine.of_le (machine : FitsMachine cap volume) {less : Int} (within : less ≤ volume) :
    FitsMachine cap less where
  capNonneg := machine.capNonneg
  volumeFits := within.trans_lt machine.volumeFits
  costFits := (mul_le_mul_of_nonneg_left within machine.capNonneg).trans_lt machine.costFits

end Width

end Hft.Logical
