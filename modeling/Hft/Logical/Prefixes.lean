import Mathlib.Data.List.Induction
import Mathlib.Data.List.Infix

/-!
# Along the prefixes of a stream

What holds of a stream at all times holds of each of its prefixes.
-/

namespace Hft.Logical

variable {α : Type}

/-- Where one more item keeps a property exactly when it is good, the property holds all along
exactly when every item is good where it comes. -/
theorem forall_prefix_iff {holds : List α → Prop} {good : List α → α → Prop} (start : holds [])
    (step : ∀ {earlier item}, holds earlier → (holds (earlier ++ [item]) ↔ good earlier item))
    (items : List α) :
    (∀ earlier, earlier <+: items → holds earlier) ↔
      ∀ earlier item, earlier ++ [item] <+: items → good earlier item := by
  constructor
  · intro always earlier item within
    have before := always earlier ((List.prefix_append _ _).trans within)
    exact (step before).mp (always _ within)
  · intro allGood earlier
    induction earlier using List.reverseRecOn with
    | nil => exact fun _ => start
    | append_singleton earlier item ih =>
        intro within
        have before := ih ((List.prefix_append _ _).trans within)
        exact (step before).mpr (allGood earlier item within)

end Hft.Logical
