import Mathlib.Algebra.BigOperators.Group.List.Basic
import Mathlib.Algebra.Order.Group.Abs
import Mathlib.Tactic.Linarith

/-!
# Stuttering copies

A writer that takes items one after the other and may be made to write the last one again leaves
a copy of what it took in which items are repeated on the spot. Nothing is lost and nothing
changes places, and a total over the copy is off by the repeated items alone.
-/

namespace Hft.Logical

/-- `copy` is `original` with `extra` repetitions of items that had just been written. -/
inductive Stutters {α : Type} : Nat → List α → List α → Prop where
  | nil : Stutters 0 [] []
  | next {extra : Nat} {original copy : List α} (item : α)
      (earlier : Stutters extra original copy) :
      Stutters extra (original ++ [item]) (copy ++ [item])
  | again {extra : Nat} {original copy : List α} {item : α}
      (earlier : Stutters extra (original ++ [item]) copy) :
      Stutters (extra + 1) (original ++ [item]) (copy ++ [item])

namespace Stutters

variable {α : Type} {extra : Nat} {original copy : List α}

/-- Whatever is in the copy has been taken. -/
theorem subset (stutters : Stutters extra original copy) : copy ⊆ original := by
  induction stutters with
  | nil => exact List.Subset.refl _
  | next item _ ih =>
      exact List.append_subset.mpr ⟨List.Subset.trans ih (List.subset_append_left _ _),
        List.subset_append_right _ _⟩
  | again _ ih => exact List.append_subset.mpr ⟨ih, List.subset_append_right _ _⟩

/-- A total over the copy is off by no more than its repetitions can add. -/
theorem abs_sum_sub_le (stutters : Stutters extra original copy) (figure : α → Int) {bound : Int}
    (bounded : ∀ item ∈ original, |figure item| ≤ bound) :
    |(copy.map figure).sum - (original.map figure).sum| ≤ bound * extra := by
  induction stutters with
  | nil => simp
  | next item _ ih =>
      have earlier := ih fun other member => bounded other (List.mem_append_left _ member)
      simpa using earlier
  | @again extra original copy item _ ih =>
      have earlier := ih bounded
      have own := bounded item (List.mem_append_right _ List.mem_cons_self)
      rw [List.map_append, List.sum_append, List.map_singleton, List.sum_singleton,
        add_sub_right_comm]
      push_cast
      calc _ ≤ |(copy.map figure).sum - ((original ++ [item]).map figure).sum| + |figure item| :=
            abs_add_le _ _
        _ ≤ bound * (extra + 1) := by linarith

end Stutters

end Hft.Logical
