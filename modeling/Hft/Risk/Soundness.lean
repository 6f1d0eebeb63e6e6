import Hft.Logical.Wrapping
import Hft.Risk.Ledger

/-!
# What a passed check says about the mathematical figures

The rules compare 64-bit results from one side or the other: the quantity and the
notional against an upper limit only, the projection against both. On two's complement
integers the exposure scan holds the open quantity up to turns of 32 bits and the
notional is the product up to turns of 64. `check_sound_iff` tells the passed orders whose
mathematical figures are within the limits from those that passed for another reason.
-/

namespace Hft

open Logical

/-- Limits as the source's types hold them, none of them negative. -/
structure RiskLimits.Proper (limits : RiskLimits) : Prop where
  orderQty : 0 ≤ limits.maxOrderQty ∧ limits.maxOrderQty < 2 ^ 31
  orderNotional : 0 ≤ limits.maxOrderNotional ∧ limits.maxOrderNotional < 2 ^ 63
  netPosition : 0 ≤ limits.maxNetPosition ∧ limits.maxNetPosition < 2 ^ 63
  lossFp : 0 ≤ limits.maxLossFp ∧ limits.maxLossFp < 2 ^ 63

theorem RiskLimits.proper_default : RiskLimits.Proper {} := by
  constructor <;> decide

namespace OrderManager

/-- Every order's quantities are 32-bit values. -/
def Typed (orders : OrderManager) : Prop :=
  ∀ order ∈ orders.slots, InRange 32 order.originalQty ∧ InRange 32 order.filledQty

/-- One step of the `open_exposure` scan on two's complement integers, whatever the
quantities are. -/
theorem addExposure_wrapping (sym : StringView) (exposure : Int) (order : Order) :
    addExposure .wrapping sym (Arithmetic.wrap 32 exposure) order =
      Arithmetic.wrap 32 (exposure +
        if order.symbol.string = fieldKey sym then order.pendingSigned else 0) := by
  have width : 0 < 32 := by decide
  have onSymbol : strncmp order.symbol.pointer sym.data 8 ≠ 0 ↔
      ¬order.symbol.string = fieldKey sym := not_congr strncmp_eq_zero_iff
  unfold addExposure
  simp only [onSymbol]
  by_cases isOpen : order.isOpen
  · by_cases symbol : order.symbol.string = fieldKey sym
    · simp only [isOpen, symbol, Bool.not_true, Bool.false_eq_true, not_true_eq_false, if_true,
        if_false, Order.pendingSigned, Order.remainingQty, Side.sign, Arithmetic.wrapping]
      split
      · rw [one_mul, Arithmetic.wrap_wrap_add width, Arithmetic.wrap_add_wrap width]
      · rw [neg_one_mul, Arithmetic.wrap_wrap_add width, Arithmetic.wrap_add_wrap width]
        rw [← Arithmetic.wrap_add_wrap width, Arithmetic.wrap_neg_wrap width,
          Arithmetic.wrap_add_wrap width]
    · simp [isOpen, symbol]
  · simp [isOpen, Order.pendingSigned]

/-- The 32-bit scan holds the open quantity up to turns of `2 ^ 32`. -/
theorem openExposure_wrapping (orders : OrderManager) (sym : StringView) :
    orders.openExposure .wrapping sym =
      Arithmetic.wrap 32 (orders.totalOn (fieldKey sym) Order.pendingSigned) := by
  have scanned := Arithmetic.foldl_wrap (addExposure_wrapping sym) orders.slots 0
  rw [zero_add] at scanned
  exact scanned

/-- The open quantity of a full table stays within 42 bits. -/
theorem Typed.abs_pending_le {orders : OrderManager} (typed : orders.Typed)
    (symbol : List UInt8) : |orders.totalOn symbol Order.pendingSigned| ≤ 2 ^ 32 * maxOrders := by
  apply abs_totalOn_le symbol (by norm_num)
  intro order member
  obtain ⟨⟨lowOriginal, highOriginal⟩, lowFilled, highFilled⟩ := typed order member
  norm_num at lowOriginal highOriginal lowFilled highFilled
  unfold Order.pendingSigned Side.sign
  rw [abs_le]
  split_ifs <;> omega

end OrderManager

namespace RiskChecker

/-- Where the position would stand if everything open and the new order were filled. -/
def projectedQty (sym : StringView) (side : Side) (qty : Int) (tracker : PositionTracker)
    (orders : OrderManager) : Int :=
  tracker.netQty sym + orders.totalOn (fieldKey sym) Order.pendingSigned + side.sign * qty

/-- The limits as promised: on the mathematical figures. -/
structure Within (limits : RiskLimits) (sym : StringView) (side : Side) (qty priceFp : Int)
    (tracker : PositionTracker) (orders : OrderManager) : Prop where
  qtyPositive : 0 < qty
  qtyBounded : qty ≤ limits.maxOrderQty
  notional : |qty * priceFp| ≤ limits.maxOrderNotional
  position : |projectedQty sym side qty tracker orders| ≤ limits.maxNetPosition

/-- The position rule of a passed check, on two's complement integers. -/
theorem abs_wrapped_projection_le {limits : RiskLimits} {sym : StringView} {side : Side}
    {qty priceFp : Int} {tracker : PositionTracker} {orders : OrderManager}
    (proper : limits.Proper) (positive : 0 < qty)
    (passed : check .wrapping limits sym side qty priceFp tracker orders = .pass) :
    |Arithmetic.wrap 64 (tracker.netQty sym +
        Arithmetic.wrap 32 (orders.totalOn (fieldKey sym) Order.pendingSigned) +
        side.sign * qty)| ≤ limits.maxNetPosition := by
  obtain ⟨bounded, _, position⟩ := check_eq_pass_iff.mp passed
  obtain ⟨⟨upper, lower⟩, _⟩ := checkProjected_eq_pass_iff.mp position
  obtain ⟨_, small⟩ := proper.orderQty
  obtain ⟨nonneg, limitTyped⟩ := proper.netPosition
  have floor : Arithmetic.wrapping.int64 (-limits.maxNetPosition) = -limits.maxNetPosition :=
    Arithmetic.wrapping.int64_exact (inRange_64 (by omega) (by omega))
  have projected : Arithmetic.wrapping.int64
      (Arithmetic.wrapping.int64 (tracker.netQty sym + orders.openExposure .wrapping sym) +
        signedQty .wrapping side qty) =
      Arithmetic.wrap 64 (tracker.netQty sym +
        Arithmetic.wrap 32 (orders.totalOn (fieldKey sym) Order.pendingSigned) +
        side.sign * qty) := by
    rw [orders.openExposure_wrapping, Book.signedQty_eq _ side positive (by omega)]
    exact Arithmetic.wrap_wrap_add (by decide) _ _
  rw [projected] at upper lower
  rw [floor] at lower
  exact abs_le.mpr ⟨lower, upper⟩

/-- Whether a projection that looks small is small. With a limit below `2 ^ 31`, turns of
the 32-bit scan show; beyond it, they can leave the sum within the limit by chance. -/
theorem abs_le_iff_of_abs_wrap_le {base pending limit : Int} (bounded : |pending| ≤ 2 ^ 41)
    (looks : |Arithmetic.wrap 64 (base + Arithmetic.wrap 32 pending)| ≤ limit) :
    |base + pending| ≤ limit ↔
      (InRange 32 pending ∧ InRange 64 (base + pending)) ∨
        (2 ^ 31 ≤ limit ∧ |base + pending| ≤ limit) := by
  obtain ⟨turns, scanned⟩ := Arithmetic.exists_wrap_eq 32 pending
  obtain ⟨laps, projected⟩ := Arithmetic.exists_wrap_eq 64 (base + Arithmetic.wrap 32 pending)
  obtain ⟨low, high⟩ := abs_le.mp looks
  obtain ⟨pendingLow, pendingHigh⟩ := abs_le.mp bounded
  obtain ⟨scanLow, scanHigh⟩ := Arithmetic.inRange_wrap (show 0 < 32 by decide) pending
  norm_num at scanned projected scanLow scanHigh pendingLow pendingHigh
  constructor
  · intro small
    obtain ⟨smallLow, smallHigh⟩ := abs_le.mp small
    by_cases wide : 2 ^ 31 ≤ limit
    · exact .inr ⟨wide, small⟩
    · norm_num at wide
      -- Both sums are below 2 ^ 31 and differ by turns of 2 ^ 32.
      have noTurn : turns = 0 := by omega
      subst noTurn
      exact .inl ⟨inRange_32 (by omega) (by omega), inRange_64 (by omega) (by omega)⟩
  · rintro (⟨pendingFits, sumFits⟩ | ⟨_, small⟩)
    · have scan : Arithmetic.wrap 32 pending = pending :=
        Arithmetic.wrapping.int32_exact pendingFits
      have sum : Arithmetic.wrap 64 (base + pending) = base + pending :=
        Arithmetic.wrapping.int64_exact sumFits
      rwa [scan, sum] at looks
    · exact small

/-- The condition under which the position rule of a passed check means what it says. -/
def ProjectionFits (limits : RiskLimits) (sym : StringView) (side : Side) (qty : Int)
    (tracker : PositionTracker) (orders : OrderManager) : Prop :=
  (InRange 32 (orders.totalOn (fieldKey sym) Order.pendingSigned) ∧
      InRange 64 (projectedQty sym side qty tracker orders)) ∨
    (2 ^ 31 ≤ limits.maxNetPosition ∧
      |projectedQty sym side qty tracker orders| ≤ limits.maxNetPosition)

theorem abs_projectedQty_le_iff {limits : RiskLimits} {sym : StringView} {side : Side}
    {qty priceFp : Int} {tracker : PositionTracker} {orders : OrderManager}
    (proper : limits.Proper) (typed : orders.Typed) (positive : 0 < qty)
    (passed : check .wrapping limits sym side qty priceFp tracker orders = .pass) :
    |projectedQty sym side qty tracker orders| ≤ limits.maxNetPosition ↔
      ProjectionFits limits sym side qty tracker orders := by
  have small := (typed.abs_pending_le (fieldKey sym)).trans
    (show (2 ^ 32 * maxOrders : Int) ≤ 2 ^ 41 by norm_num [maxOrders])
  have looks := abs_wrapped_projection_le proper positive passed
  rw [add_right_comm] at looks
  unfold ProjectionFits projectedQty
  rw [add_right_comm (tracker.netQty sym)]
  exact abs_le_iff_of_abs_wrap_le small looks

/-- A passed order is within the limits exactly when its quantity is positive, its notional
neither overflows nor lies below the negated limit, and the open quantity and the projection
keep to their 32 and 64 bits. A position limit of `2 ^ 31` or more can also be kept by a
scan that wrapped. -/
theorem check_sound_iff {limits : RiskLimits} {sym : StringView} {side : Side} {qty priceFp : Int}
    {tracker : PositionTracker} {orders : OrderManager} (proper : limits.Proper)
    (typed : orders.Typed)
    (passed : check .wrapping limits sym side qty priceFp tracker orders = .pass) :
    Within limits sym side qty priceFp tracker orders ↔
      0 < qty ∧ InRange 64 (qty * priceFp) ∧ -limits.maxOrderNotional ≤ qty * priceFp ∧
        ProjectionFits limits sym side qty tracker orders := by
  obtain ⟨bounded, notional, _⟩ := check_eq_pass_iff.mp passed
  obtain ⟨_, notionalTyped⟩ := proper.orderNotional
  constructor
  · rintro ⟨positive, _, product, projected⟩
    obtain ⟨low, high⟩ := abs_le.mp product
    exact ⟨positive, inRange_64 (by omega) (by omega), low,
      (abs_projectedQty_le_iff proper typed positive passed).mp projected⟩
  · rintro ⟨positive, fits, low, projected⟩
    have product : Arithmetic.wrapping.int64 (qty * priceFp) = qty * priceFp :=
      Arithmetic.wrapping.int64_exact fits
    rw [product] at notional
    exact ⟨positive, bounded, abs_le.mpr ⟨low, notional⟩,
      (abs_projectedQty_le_iff proper typed positive passed).mpr projected⟩

theorem typed_initial : OrderManager.initial.Typed := fun _ member => absurd member List.not_mem_nil

theorem typed_sampleBook : Book.sampleBook.orders.Typed := by
  unfold OrderManager.Typed
  decide +kernel

/-- Beside 60 shares that are held and 40 that are open, 100 more are within the default
limits. -/
theorem check_sound_held :
    Within {} (StringView.ofList (ascii "AAPL")) .buy 100 priceScale Book.sampleBook.tracker
      Book.sampleBook.orders :=
  (check_sound_iff RiskLimits.proper_default typed_sampleBook (by decide +kernel)).mpr
    ⟨by decide, by decide, by decide, .inl ⟨by decide +kernel, by decide +kernel⟩⟩

/-- A negative quantity passes every upper limit. -/
theorem check_passes_negative_qty :
    ¬∀ (limits : RiskLimits) (tracker : PositionTracker) (orders : OrderManager)
      (sym : StringView) (side : Side) (qty priceFp : Int), limits.Proper → orders.Typed →
      InRange 32 qty → InRange 64 priceFp →
      check .wrapping limits sym side qty priceFp tracker orders = .pass →
      Within limits sym side qty priceFp tracker orders := by
  intro sound
  have within := sound {} PositionTracker.initial OrderManager.initial
    (StringView.ofList (ascii "AAPL")) .buy (-1) priceScale RiskLimits.proper_default typed_initial
    (by decide) (by decide) (by decide)
  exact absurd within.qtyPositive (by decide)

end RiskChecker

end Hft
