import Hft.OrderManager
import Hft.PositionTracker

/-!
# Pre-trade risk checks

The two hand-written rule lists. `check` measures an order against filled plus
pending quantity, where pending buys and sells of a symbol are netted by
`open_exposure`; `checkPosition` looks at the filled position alone.
-/

namespace Hft

open Logical

inductive RiskResult where
  | pass
  | failMaxQty
  | failMaxNotional
  | failPositionLimit
  | failMaxLoss
  | failPositionCross
deriving DecidableEq, Repr

structure RiskLimits where
  maxOrderQty : Int := 10000
  maxOrderNotional : Int := 5000000 * priceScale
  maxNetPosition : Int := 50000
  maxLossFp : Int := 100000 * priceScale
  allowPositionCross : Bool := false
deriving DecidableEq

namespace RiskChecker

/-- `side == Side::Buy ? qty : -qty`. -/
def signedQty (arith : Arithmetic) (side : Side) (qty : Int) : Int :=
  if side = .buy then qty else arith.int32 (-qty)

/-- The position rules both overloads share, from the quantity held before the order. -/
def checkProjected (arith : Arithmetic) (limits : RiskLimits) (heldQty signed : Int)
    (realizedPnl : Option Int) : RiskResult :=
  let projected := arith.int64 (heldQty + signed)
  if limits.maxNetPosition < projected ∨ projected < arith.int64 (-limits.maxNetPosition) then
    .failPositionLimit
  else if limits.allowPositionCross = false ∧
      ((0 < heldQty ∧ projected < 0) ∨ (heldQty < 0 ∧ 0 < projected)) then
    .failPositionCross
  else if ∃ pnl ∈ realizedPnl, pnl < arith.int64 (-limits.maxLossFp) then .failMaxLoss
  else .pass

/-- `check` with both the tracker and the order manager. -/
def check (arith : Arithmetic) (limits : RiskLimits) (sym : StringView) (side : Side)
    (qty priceFp : Int) (tracker : PositionTracker) (orders : OrderManager) : RiskResult :=
  if limits.maxOrderQty < qty then .failMaxQty
  else if limits.maxOrderNotional < arith.int64 (qty * priceFp) then .failMaxNotional
  else
    let filledQty := tracker.netQty sym
    let pendingQty := orders.openExposure arith sym
    let trueQty := arith.int64 (filledQty + pendingQty)
    checkProjected arith limits trueQty (signedQty arith side qty)
      ((tracker.get sym).map Position.realizedPnl)

/-- `check` with a position only; a symbol without one passes the position rules. -/
def checkPosition (arith : Arithmetic) (limits : RiskLimits) (side : Side) (qty priceFp : Int)
    (pos : Option Position) : RiskResult :=
  if limits.maxOrderQty < qty then .failMaxQty
  else if limits.maxOrderNotional < arith.int64 (qty * priceFp) then .failMaxNotional
  else match pos with
    | some position =>
        checkProjected arith limits position.netQty (signedQty arith side qty)
          (some position.realizedPnl)
    | none => .pass

/-- `check` with the tracker only. -/
def checkTracker (arith : Arithmetic) (limits : RiskLimits) (sym : StringView) (side : Side)
    (qty priceFp : Int) (tracker : PositionTracker) : RiskResult :=
  checkPosition arith limits side qty priceFp (tracker.get sym)

/-- The position rules pass exactly when none of the three guards fires. -/
theorem checkProjected_eq_pass_iff {arith : Arithmetic} {limits : RiskLimits}
    {heldQty signed : Int} {realizedPnl : Option Int} :
    checkProjected arith limits heldQty signed realizedPnl = .pass ↔
      (arith.int64 (heldQty + signed) ≤ limits.maxNetPosition ∧
        arith.int64 (-limits.maxNetPosition) ≤ arith.int64 (heldQty + signed)) ∧
      ¬(limits.allowPositionCross = false ∧
        ((0 < heldQty ∧ arith.int64 (heldQty + signed) < 0) ∨
          (heldQty < 0 ∧ 0 < arith.int64 (heldQty + signed)))) ∧
      ¬∃ pnl ∈ realizedPnl, pnl < arith.int64 (-limits.maxLossFp) := by
  simp only [checkProjected]
  split_ifs with limit cross loss
  · simp only [false_iff]
    omega
  · simp only [false_iff]
    rintro ⟨_, free, _⟩
    exact free cross
  · simp only [false_iff]
    rintro ⟨_, _, free⟩
    exact free loss
  · simp only [true_iff]
    exact ⟨by omega, cross, loss⟩

/-- The full check passes exactly when the size, notional and position rules do. -/
theorem check_eq_pass_iff {arith : Arithmetic} {limits : RiskLimits} {sym : StringView}
    {side : Side} {qty priceFp : Int} {tracker : PositionTracker} {orders : OrderManager} :
    check arith limits sym side qty priceFp tracker orders = .pass ↔
      qty ≤ limits.maxOrderQty ∧ arith.int64 (qty * priceFp) ≤ limits.maxOrderNotional ∧
      checkProjected arith limits
        (arith.int64 (tracker.netQty sym + orders.openExposure arith sym))
        (signedQty arith side qty) ((tracker.get sym).map Position.realizedPnl) = .pass := by
  simp only [check]
  split_ifs with quantity notional
  · simp [quantity]
  · simp [notional]
  · simp [not_lt.mp quantity, not_lt.mp notional]

end RiskChecker

end Hft
