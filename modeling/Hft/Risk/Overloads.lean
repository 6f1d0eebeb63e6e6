import Hft.Risk.Ledger

/-!
# The two overloads of the risk check

The check that sees the order manager and the one that sees the tracker alone are
two copies of one rule list. Without open orders on the symbol the first has nothing
more to look at than the second, and they differ in one place: a symbol without a
slot counts as flat in the first and skips the position rules in the second.
-/

namespace Hft

open Logical

/-- The manager has no open order on the symbol. -/
def OrderManager.QuietOn (orders : OrderManager) (sym : StringView) : Prop :=
  ∀ order ∈ orders.openOrders, order.symbol.string ≠ fieldKey sym

/-- Nothing open, nothing exposed. -/
theorem OrderManager.QuietOn.openExposure_eq_zero {orders : OrderManager} {sym : StringView}
    (quiet : orders.QuietOn sym) (arith : Arithmetic) : orders.openExposure arith sym = 0 := by
  have skipped : ∀ slots : List Order, slots ⊆ orders.slots →
      slots.foldl (addExposure arith sym) 0 = 0 := by
    intro slots inside
    induction slots with
    | nil => rfl
    | cons order rest ih =>
        obtain ⟨member, restInside⟩ := List.cons_subset.mp inside
        have visited : addExposure arith sym 0 order = 0 := by
          unfold addExposure
          by_cases isOpen : order.isOpen
          · have elsewhere : strncmp order.symbol.pointer sym.data 8 ≠ 0 := fun same =>
              quiet order (List.mem_filter.mpr ⟨member, isOpen⟩) (strncmp_eq_zero_iff.mp same)
            simp [isOpen, elsewhere]
          · simp [isOpen]
        rw [List.foldl_cons, visited]
        exact ih restInside
  exact skipped orders.slots (List.Subset.refl _)

namespace RiskChecker

variable {limits : RiskLimits}

/-- Held flat, an order passes the position rules exactly when its size is within the
position limit. -/
theorem checkProjected_flat_eq_pass_iff (arith : Arithmetic) (side : Side) {qty : Int}
    (positive : 0 < qty) (qtyTyped : qty < 2 ^ 31) (limitTyped : InRange 64 limits.maxNetPosition) :
    checkProjected arith limits 0 (signedQty arith side qty) none = .pass ↔
      qty ≤ limits.maxNetPosition := by
  obtain ⟨_, limitHigh⟩ := limitTyped
  norm_num at limitHigh
  have signed := Book.signedQty_eq arith side positive qtyTyped
  have projected : arith.int64 (0 + side.sign * qty) = side.sign * qty := by
    rw [zero_add]
    apply arith.int64_exact
    unfold Side.sign
    split <;> exact inRange_64 (by omega) (by omega)
  rw [checkProjected_eq_pass_iff, signed, projected]
  have uncrossed : ¬(limits.allowPositionCross = false ∧
      ((0 < (0 : Int) ∧ side.sign * qty < 0) ∨ ((0 : Int) < 0 ∧ 0 < side.sign * qty))) := by
    simp
  have lossFree : ¬∃ pnl ∈ (none : Option Int), pnl < arith.int64 (-limits.maxLossFp) := by simp
  simp only [uncrossed, lossFree, not_false_eq_true, and_true]
  constructor
  · rintro ⟨upper, lower⟩
    unfold Side.sign at upper lower
    split at upper
    · omega
    · rename_i sells
      simp only [sells, if_false] at lower
      -- A limit whose negation overflows lies below every order.
      have floor : arith.int64 (-limits.maxNetPosition) = -limits.maxNetPosition :=
        arith.int64_exact (inRange_64 (by omega) (by omega))
      omega
  · intro within
    have floor : arith.int64 (-limits.maxNetPosition) = -limits.maxNetPosition :=
      arith.int64_exact (inRange_64 (by omega) (by omega))
    rw [floor]
    unfold Side.sign
    split <;> omega

/-- With no open order on the symbol, the overloads agree unless the symbol has no
slot, the order is within both size limits and its quantity is beyond the position
limit: the overload without orders passes it then. -/
theorem check_eq_checkTracker_iff (arith : Arithmetic) (limits : RiskLimits)
    (tracker : PositionTracker) (orders : OrderManager) (sym : StringView) (side : Side)
    (qty priceFp : Int) (quiet : orders.QuietOn sym) (positive : 0 < qty) (qtyTyped : qty < 2 ^ 31)
    (noOverflow : InRange 64 (qty * priceFp)) (netTyped : InRange 64 (tracker.netQty sym))
    (limitTyped : InRange 64 limits.maxNetPosition) :
    check arith limits sym side qty priceFp tracker orders =
        checkTracker arith limits sym side qty priceFp tracker ↔
      (tracker.get sym).isSome = true ∨ limits.maxOrderQty < qty ∨
        limits.maxOrderNotional < qty * priceFp ∨ qty ≤ limits.maxNetPosition := by
  have held : arith.int64 (tracker.netQty sym + orders.openExposure arith sym) =
      tracker.netQty sym := by
    rw [quiet.openExposure_eq_zero, add_zero, arith.int64_exact netTyped]
  simp only [check, checkTracker, checkPosition, arith.int64_exact noOverflow, held]
  by_cases oversized : limits.maxOrderQty < qty
  · simp [oversized]
  by_cases overpriced : limits.maxOrderNotional < qty * priceFp
  · simp [oversized, overpriced]
  simp only [oversized, overpriced, if_false, false_or]
  cases found : tracker.get sym with
  | some position => simp [PositionTracker.netQty, found]
  | none =>
      simp only [PositionTracker.netQty, found, Option.map_none, Option.isSome_none,
        Bool.false_eq_true, false_or]
      exact checkProjected_flat_eq_pass_iff arith side positive qtyTyped limitTyped

theorem quietOn_initial (sym : StringView) : OrderManager.initial.QuietOn sym :=
  fun _ member => absurd member List.not_mem_nil

theorem quietOn_sampleBook :
    Book.sampleBook.orders.QuietOn (StringView.ofList (ascii "MSFT")) := by
  unfold OrderManager.QuietOn
  decide +kernel

/-- 50 MSFT are short with no order left, while another symbol has one. -/
theorem check_eq_checkTracker_short :
    check .wrapping {} (StringView.ofList (ascii "MSFT")) .buy 100 priceScale
        Book.sampleBook.tracker Book.sampleBook.orders =
      checkTracker .wrapping {} (StringView.ofList (ascii "MSFT")) .buy 100 priceScale
        Book.sampleBook.tracker :=
  (check_eq_checkTracker_iff .wrapping {} Book.sampleBook.tracker Book.sampleBook.orders
    (StringView.ofList (ascii "MSFT")) .buy 100 priceScale quietOn_sampleBook (by decide)
    (by decide) (by decide) (by decide +kernel) (by decide)).mpr (.inl (by decide +kernel))

/-- A first order beyond the position limit passes the overload without orders. -/
theorem checkTracker_passes_unknown_symbol :
    ¬∀ (arith : Arithmetic) (limits : RiskLimits) (tracker : PositionTracker)
      (orders : OrderManager) (sym : StringView) (side : Side) (qty priceFp : Int),
      orders.QuietOn sym → 0 < qty → qty < 2 ^ 31 → 0 ≤ priceFp → InRange 64 (qty * priceFp) →
      InRange 64 (tracker.netQty sym) → InRange 64 limits.maxNetPosition →
      check arith limits sym side qty priceFp tracker orders =
        checkTracker arith limits sym side qty priceFp tracker := by
  intro agree
  have same := agree .wrapping { maxNetPosition := 50 } PositionTracker.initial
    OrderManager.initial (StringView.ofList (ascii "AAPL")) .buy 100 priceScale (quietOn_initial _)
    (by decide) (by decide) (by decide) (by decide) (by decide) (by decide)
  revert same
  decide

end RiskChecker

end Hft
