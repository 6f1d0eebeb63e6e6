import Mathlib.Data.Int.Basic
import Mathlib.Tactic.NormNum

/-!
# Fixed-width integer arithmetic

`Arithmetic` is what a program may rely on about its 32- and 64-bit signed
results: a result inside the type's range is the mathematical one. Outside the
range nothing is promised, so a theorem about every `Arithmetic` covers wrapping
machine integers, unbounded integers, and whatever a compiler makes of a signed
overflow. `Arithmetic.wrapping` and `Arithmetic.exact` are the two named instances.
-/

namespace Hft.Logical

/-- The values of a signed `width`-bit integer. -/
def InRange (width : Nat) (value : Int) : Prop :=
  -(2 ^ (width - 1) : Int) ≤ value ∧ value < (2 ^ (width - 1) : Int)

instance (width : Nat) (value : Int) : Decidable (InRange width value) :=
  inferInstanceAs (Decidable (_ ∧ _))

theorem inRange_32 {value : Int} (low : -2147483648 ≤ value) (high : value < 2147483648) :
    InRange 32 value := by
  constructor <;> norm_num <;> assumption

theorem inRange_64 {value : Int} (low : -9223372036854775808 ≤ value)
    (high : value < 9223372036854775808) : InRange 64 value := by
  constructor <;> norm_num <;> assumption

/-- How signed 32- and 64-bit results are stored. -/
structure Arithmetic where
  int32 : Int → Int
  int64 : Int → Int
  int32_exact : ∀ {value}, InRange 32 value → int32 value = value
  int64_exact : ∀ {value}, InRange 64 value → int64 value = value

namespace Arithmetic

/-- Unbounded integers: no result is ever reduced. -/
def exact : Arithmetic where
  int32 value := value
  int64 value := value
  int32_exact _ := rfl
  int64_exact _ := rfl

@[simp] theorem exact_int64 (value : Int) : exact.int64 value = value := rfl

/-- Two's complement reduction to `width` bits. -/
def wrap (width : Nat) (value : Int) : Int :=
  (value + 2 ^ (width - 1)) % 2 ^ width - 2 ^ (width - 1)

/-- Two's complement integers. -/
def wrapping : Arithmetic where
  int32 := wrap 32
  int64 := wrap 64
  int32_exact := by
    intro value range
    simp only [InRange, wrap] at range ⊢
    norm_num at range ⊢
    omega
  int64_exact := by
    intro value range
    simp only [InRange, wrap] at range ⊢
    norm_num at range ⊢
    omega

end Arithmetic

end Hft.Logical
