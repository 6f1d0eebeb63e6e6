import Hft.Projections
import Hft.Risk.PositionLimit
import Hft.Risk.Soundness
import Mathlib.Data.List.Induction

/-!
# Orders that reduce exposure

An order against the sign of true exposure, for no more than its size, never crosses
zero, so of the position rules only the limit can block it: the rule looks at where the
order leaves the position, not at where it came from. How far outside its limit a session
can get is not bounded by the check, only by the log: `Ranged` keeps every net quantity
far from 64 bits, which is all that the argument needs of a run.
-/

namespace Hft

open Logical

/-- A 32-bit fill moves a net quantity by at most `2 ^ 31`. -/
theorem Position.abs_netQty_applyFill_le (arith : Arithmetic) {event : OrderEvent}
    {position : Position} {bound : Int} (typed : InRange 32 event.fillQty)
    (held : |position.netQty| ≤ bound) (small : bound + 2 ^ 31 < 2 ^ 63) :
    |(position.applyFill arith event).netQty| ≤ bound + 2 ^ 31 := by
  obtain ⟨low, high⟩ := abs_le.mp held
  obtain ⟨fillLow, fillHigh⟩ := typed
  norm_num at fillLow fillHigh small ⊢
  rw [netQty_applyFill]
  obtain sign | sign := event.side.sign_eq
  · rw [sign, arith.int64_exact (inRange_64 (by omega) (by omega))]
    exact abs_le.mpr ⟨by omega, by omega⟩
  · rw [sign, arith.int64_exact (inRange_64 (by omega) (by omega))]
    exact abs_le.mpr ⟨by omega, by omega⟩

namespace PositionTracker

/-- Every net quantity the tracker holds is within the bound. -/
def Within (tracker : PositionTracker) (bound : Int) : Prop :=
  ∀ position ∈ tracker.slots, |position.netQty| ≤ bound

theorem Within.abs_netOf_le {tracker : PositionTracker} {bound : Int}
    (within : tracker.Within bound) (nonneg : 0 ≤ bound) (symbol : List UInt8) :
    |tracker.netOf symbol| ≤ bound := by
  unfold netOf
  cases found : tracker.find? symbol with
  | none => simpa using nonneg
  | some position => exact within position (SlotTable.find?_eq_some_iff.mp found).1

/-- One event widens the bound by at most `2 ^ 31`. -/
theorem Within.applyEvent {tracker : PositionTracker} {bound : Int} (within : tracker.Within bound)
    (nonneg : 0 ≤ bound) (arith : Arithmetic) {event : OrderEvent}
    (typed : InRange 32 event.fillQty) (small : bound + 2 ^ 31 < 2 ^ 63) :
    (tracker.applyEvent arith event).Within (bound + 2 ^ 31) := by
  have kept : tracker.Within (bound + 2 ^ 31) :=
    fun position member => (within position member).trans (by omega)
  have filled : ∀ position : Position, |position.netQty| ≤ bound →
      |(position.applyFill arith event).netQty| ≤ bound + 2 ^ 31 :=
    fun position held => position.abs_netQty_applyFill_le arith typed held small
  intro position member
  obtain old | ⟨_, before, inTable | cleared, rfl⟩ := mem_applyEvent member
  · exact kept position old
  · exact filled before (within before inTable)
  · rw [cleared]
    exact filled _ (by simpa [Position.zeroed] using nonneg)

theorem Within.markToMarket {tracker : PositionTracker} {bound : Int}
    (within : tracker.Within bound) (arith : Arithmetic) (sym : StringView) (mktPriceFp : Int) :
    (tracker.markToMarket arith sym mktPriceFp).Within bound := by
  intro position member
  obtain ⟨before, inTable, rfl⟩ := (SlotTable.mem_update _ _).mp member
  have sameQty : (before.mark arith mktPriceFp).netQty = before.netQty := by
    unfold Position.mark
    split <;> rfl
  split
  · rw [sameQty]
    exact within before inTable
  · exact within before inTable

/-- So a log holds no more than its events add up to. -/
theorem within_foldl (arith : Arithmetic) {events : List OrderEvent}
    (short : events.length ≤ maxEvents) (fields : ∀ event ∈ events, InRange 32 event.fillQty) :
    PositionTracker.Within (events.foldl (PositionTracker.applyEvent arith) initial)
      (2 ^ 31 * events.length) := by
  induction events using List.reverseRecOn with
  | nil => exact fun position member => absurd member List.not_mem_nil
  | append_singleton earlier event ih =>
      rw [List.length_append, List.length_singleton] at short ⊢
      have replayed := ih (by omega) fun other member =>
        fields other (List.mem_append_left _ member)
      simp only [maxEvents] at short
      have next := replayed.applyEvent (by positivity) arith
        (fields event (List.mem_append_right _ (List.mem_singleton_self _))) (by omega)
      rw [List.foldl_append]
      push_cast
      rwa [mul_add, mul_one]

end PositionTracker

/-- The quantity of a booked report is a 32-bit one. -/
theorem Gateway.MessageTranslator.inRange_fillQty {report : ExecutionReport} {event : OrderEvent}
    (translated : fromExecutionReport .wrapping report = .ok (some event)) :
    InRange 32 event.fillQty := by
  obtain ⟨_, etype, symbol, clOrdId, side, _, _, _, _, _, rfl⟩ :=
    fromExecutionReport_eq_some_iff.mp translated
  have blank : InRange 32 (0 : Int) := by decide
  unfold reportedEvent withFill
  split
  · split
    · exact Arithmetic.inRange_wrap (by decide) _
    · exact blank
  · exact blank

namespace Gateway.FIXGateway

/-- The log holds 32-bit quantities, and no net quantity is more than its events can add up
to. -/
structure Ranged (gateway : FIXGateway) : Prop where
  fields : ∀ event ∈ gateway.log.events, InRange 32 event.fillQty
  within : gateway.tracker.Within (2 ^ 31 * gateway.log.size)

variable {limits : RiskLimits} {log : EventLog} {gateway after : FIXGateway}

/-- A restart on a log of 32-bit quantities. -/
theorem ranged_start (arith : Arithmetic) (limits : RiskLimits)
    (fields : ∀ event ∈ log.events, InRange 32 event.fillQty) : (start arith limits log).Ranged :=
  ⟨fields, PositionTracker.within_foldl arith log.bounded fields⟩

/-- Every call keeps the books in range: what it books it also logs. -/
theorem SessionStep.ranged (step : SessionStep .wrapping gateway after) (ranged : gateway.Ranged) :
    after.Ranged := by
  cases step with
  | sendOrder args now sessionFound =>
      obtain ⟨_, same⟩ | ⟨_, _, same⟩ | ⟨log, _, _, events, same⟩ :=
        sendOrder_cases .wrapping gateway args now sessionFound
      · rw [same]
        exact ranged
      · rw [same]
        exact ⟨ranged.fields, ranged.within⟩
      · rw [same]
        refine ⟨fun event member => ?_, fun position member => ?_⟩
        · rw [events] at member
          obtain earlier | stored := List.mem_append.mp member
          · exact ranged.fields event earlier
          · have blank : InRange 32 (0 : Int) := by decide
            rw [List.mem_singleton.mp stored]
            exact blank
        · refine (ranged.within position member).trans ?_
          simp only [EventLog.size, events, List.length_append]
          push_cast
          omega
  | fromApp message now returned =>
      obtain rfl | ⟨report, event, _, translated, booked⟩ := fromApp_cases returned
      · exact ranged
      · obtain ⟨log, room, events, rfl⟩ := book_eq_ok_iff.mp booked
        have typed := MessageTranslator.inRange_fillQty translated
        simp only [maxEvents] at room
        have next := ranged.within.applyEvent (by positivity) .wrapping typed (by omega)
        refine ⟨fun other member => ?_, ?_⟩
        · rw [events] at member
          obtain earlier | stored := List.mem_append.mp member
          · exact ranged.fields other earlier
          · rw [List.mem_singleton.mp stored]
            exact typed
        · have grown : (2 ^ 31 * log.size : Int) = 2 ^ 31 * gateway.log.size + 2 ^ 31 := by
            simp only [EventLog.size, events, List.length_append, List.length_singleton]
            push_cast
            ring
          rw [grown]
          exact next
  | onLogon => exact ⟨ranged.fields, ranged.within⟩
  | onLogout => exact ⟨ranged.fields, ranged.within⟩
  | markToMarket sym mktPriceFp =>
      exact ⟨ranged.fields, ranged.within.markToMarket .wrapping sym mktPriceFp⟩

theorem InSession.ranged (run : InSession .wrapping limits log gateway)
    (fields : ∀ event ∈ log.events, InRange 32 event.fillQty) : gateway.Ranged := by
  induction run with
  | refl => exact ranged_start .wrapping limits fields
  | tail _ step ih => exact step.ranged ih

/-- No report's fill can take a net quantity out of 64 bits. -/
theorem Ranged.inRange_fill (ranged : gateway.Ranged) {report : ExecutionReport}
    {event : OrderEvent}
    (translated : MessageTranslator.fromExecutionReport .wrapping report = .ok (some event)) :
    InRange 64 (gateway.tracker.netOf event.symbol.string + event.side.sign * event.fillQty) := by
  obtain ⟨low, high⟩ :=
    abs_le.mp (ranged.within.abs_netOf_le (by positivity) event.symbol.string)
  obtain ⟨fillLow, fillHigh⟩ := MessageTranslator.inRange_fillQty translated
  have short := gateway.log.bounded
  norm_num at fillLow fillHigh
  simp only [maxEvents, EventLog.size] at short low high
  obtain sign | sign := event.side.sign_eq <;> rw [sign] <;>
    exact inRange_64 (by omega) (by omega)

/-- True exposure never comes near the range of 64 bits. -/
theorem Ranged.abs_trueExposure_le (ranged : gateway.Ranged) (sym : StringView) :
    |gateway.projections.trueExposure .wrapping sym| ≤ 2 ^ 60 := by
  have held := abs_le.mp (ranged.within.abs_netOf_le (by positivity) (fieldKey sym))
  have scanned := gateway.orders.openExposure_wrapping sym
  obtain ⟨low, high⟩ := Arithmetic.inRange_wrap (show 0 < 32 by decide)
    (gateway.orders.totalOn (fieldKey sym) Order.pendingSigned)
  have short := gateway.log.bounded
  rw [← scanned] at low high
  rw [← PositionTracker.netQty_eq_netOf] at held
  norm_num at low high
  simp only [maxEvents] at short
  simp only [Book.trueExposure, projections, EventLog.size] at held ⊢
  exact abs_le.mpr ⟨by omega, by omega⟩

end Gateway.FIXGateway

namespace RiskChecker

/-- Against the sign of what is held and for no more of it, an order passes the position
rules exactly when what is left is within the limit. -/
theorem checkProjected_reducing_eq_pass_iff {limits : RiskLimits} {heldQty signed qty : Int}
    {realizedPnl : Option Int} (limitTyped : InRange 64 limits.maxNetPosition)
    (lossTyped : InRange 64 limits.maxLossFp) (small : |heldQty| ≤ 2 ^ 60)
    (loss : ∀ pnl ∈ realizedPnl, -limits.maxLossFp ≤ pnl) (positive : 0 < qty)
    (covered : qty ≤ |heldQty|)
    (reduces : (0 < heldQty ∧ signed = -qty) ∨ (heldQty < 0 ∧ signed = qty)) :
    checkProjected .wrapping limits heldQty signed realizedPnl = .pass ↔
      |heldQty| - qty ≤ limits.maxNetPosition := by
  obtain ⟨limitLow, limitHigh⟩ := limitTyped
  obtain ⟨lossLow, lossHigh⟩ := lossTyped
  norm_num at limitLow limitHigh lossLow lossHigh small
  have size := abs_cases heldQty
  have projected : Arithmetic.wrapping.int64 (heldQty + signed) = heldQty + signed :=
    Arithmetic.wrapping.int64_exact (inRange_64 (by omega) (by omega))
  -- Negating the least 64-bit value wraps to itself, which is below every bound here.
  have negated : ∀ value : Int, -9223372036854775808 ≤ value → value < 9223372036854775808 →
      Arithmetic.wrapping.int64 (-value) = -value ∨
        (value = -9223372036854775808 ∧ Arithmetic.wrapping.int64 (-value) = value) := by
    intro value low high
    by_cases least : value = -9223372036854775808
    · right
      subst least
      exact ⟨rfl, by decide⟩
    · left
      exact Arithmetic.wrapping.int64_exact (inRange_64 (by omega) (by omega))
  have floor := negated limits.maxNetPosition limitLow limitHigh
  have uncrossed : ¬((0 < heldQty ∧ heldQty + signed < 0) ∨
      (heldQty < 0 ∧ 0 < heldQty + signed)) := by
    omega
  have lossFree : ¬∃ pnl ∈ realizedPnl, pnl < Arithmetic.wrapping.int64 (-limits.maxLossFp) := by
    rintro ⟨pnl, member, below⟩
    have within := loss pnl member
    obtain exact_ | ⟨least, wrapped⟩ := negated limits.maxLossFp lossLow lossHigh <;> omega
  rw [checkProjected_eq_pass_iff, projected]
  simp only [uncrossed, lossFree, and_false, not_false_eq_true, and_true]
  obtain exact_ | ⟨least, wrapped⟩ := floor <;> omega

end RiskChecker

namespace Gateway.FIXGateway

variable {limits : RiskLimits} {log : EventLog} {gateway : FIXGateway}

/-- In every state of every session, an order against true exposure and for no more of it
passes exactly when what it leaves is within the limit. A book further out than that is
blocked from moving back in small steps. -/
theorem reducing_order_passes_iff (run : InSession .wrapping limits log gateway)
    (fields : ∀ event ∈ log.events, InRange 32 event.fillQty)
    (orderTyped : limits.maxOrderQty < 2 ^ 31) (limitTyped : InRange 64 limits.maxNetPosition)
    (lossTyped : InRange 64 limits.maxLossFp) {sym : StringView} {side : Side} {qty priceFp : Int}
    (positive : 0 < qty) (sized : qty ≤ limits.maxOrderQty)
    (notional : Arithmetic.wrapping.int64 (qty * priceFp) ≤ limits.maxOrderNotional)
    (loss : ∀ pnl ∈ (gateway.tracker.get sym).map Position.realizedPnl, -limits.maxLossFp ≤ pnl)
    (reduces : side.sign * gateway.projections.trueExposure .wrapping sym < 0)
    (covered : qty ≤ |gateway.projections.trueExposure .wrapping sym|) :
    RiskChecker.check .wrapping limits sym side qty priceFp gateway.tracker gateway.orders = .pass ↔
      |gateway.projections.trueExposure .wrapping sym| - qty ≤ limits.maxNetPosition := by
  have small := (run.ranged fields).abs_trueExposure_le sym
  obtain ⟨low, high⟩ := abs_le.mp small
  have held : Arithmetic.wrapping.int64
      (gateway.tracker.netQty sym + gateway.orders.openExposure .wrapping sym) =
      gateway.projections.trueExposure .wrapping sym := by
    apply Arithmetic.wrapping.int64_exact
    change InRange 64 (gateway.projections.trueExposure .wrapping sym)
    exact inRange_64 (by omega) (by omega)
  rw [RiskChecker.check_eq_pass_iff, held, Book.signedQty_eq _ side positive (by omega)]
  rw [RiskChecker.checkProjected_reducing_eq_pass_iff limitTyped lossTyped small loss positive
    covered]
  · simp only [sized, notional, true_and]
  · obtain sign | sign := side.sign_eq <;> rw [sign] at reduces ⊢ <;> omega

/-! ## A cancelled hedge -/

/-- Two shares at a time, two shares at most. -/
def pairLimits : RiskLimits := { maxOrderQty := 2, maxNetPosition := 2 }

/-- Two shares of the sample symbol. -/
def twoShares (side : Side) : SendArgs := { sampleArgs with side := side, qty := 2 }

/-- The report that an order was cancelled. -/
def canceledReport (clOrdId : List UInt8) : ExecutionReport :=
  { filledReport clOrdId with execType := some '4' }

/-- The gateway after an order for two shares. -/
def sentTwo (gateway : FIXGateway) (side : Side) : FIXGateway :=
  (gateway.sendOrder .wrapping (twoShares side) 0 true).gateway

/-- Buy two, sell two, buy two: the second buy is approved because the sell is netted. -/
def hedged : FIXGateway :=
  (((start .wrapping pairLimits EventLog.empty).onLogon.sentTwo .buy).sentTwo .sell).sentTwo .buy

/-- The sell is cancelled, and four shares are left to buy under a limit of two. -/
def unhedged : FIXGateway := hedged.delivered (canceledReport (ascii "ORD1"))

theorem conformingRun_hedged : ConformingRun .wrapping (fun _ _ => True) pairLimits hedged := by
  have connected : ConformingRun .wrapping (fun _ _ => True) pairLimits
      (start .wrapping pairLimits EventLog.empty).onLogon := .single .onLogon
  have bought := connected.tail (.send (twoShares .buy) 0 true (by decide) (by decide) (by decide)
    fun _ => trivial)
  have sold := bought.tail (.send (twoShares .sell) 0 true (by decide) (by decide) (by decide)
    fun _ => trivial)
  exact sold.tail (.send (twoShares .buy) 0 true (by decide) (by decide) (by decide +kernel)
    fun _ => trivial)

theorem conformingRun_unhedged : ConformingRun .wrapping (fun _ _ => True) pairLimits unhedged := by
  obtain ⟨order, found⟩ := Option.isSome_iff_exists.mp
    (show (hedged.orders.find (StringView.ofList (ascii "ORD1"))).isSome by decide +kernel)
  have working : ∀ order ∈ hedged.orders.slots, order.isOpen := by decide +kernel
  rw [OrderManager.find_eq_find?] at found
  obtain ⟨member, sameKey⟩ := SlotTable.find?_eq_some_iff.mp found
  exact conformingRun_hedged.tail (.report (canceledReport (ascii "ORD1")) 0
    (.close member (working order member) (.inl rfl) rfl sameKey.symm rfl rfl) rfl)

/-- Two of the four shares can be sold. -/
theorem reducing_order_passes_unhedged :
    RiskChecker.check .wrapping pairLimits sampleArgs.symbol .sell 2 0 unhedged.tracker
      unhedged.orders = .pass :=
  (reducing_order_passes_iff conformingRun_unhedged.inSession
    (fun _ member => absurd member List.not_mem_nil) (by decide) (by decide) (by decide)
    (by decide) (by decide) (by decide) (by decide +kernel) (by decide +kernel)
    (by decide +kernel)).mpr (by decide +kernel)

/-- One of them cannot. -/
theorem reducing_order_blocked :
    ¬∀ (limits : RiskLimits) (gateway : FIXGateway) (sym : StringView) (side : Side)
      (qty priceFp : Int), ConformingRun .wrapping (fun _ _ => True) limits gateway →
      0 < qty → qty ≤ limits.maxOrderQty → 0 ≤ priceFp →
      qty * priceFp ≤ limits.maxOrderNotional →
      (∀ pnl ∈ (gateway.tracker.get sym).map Position.realizedPnl, -limits.maxLossFp ≤ pnl) →
      side.sign * gateway.projections.trueExposure .wrapping sym < 0 →
      qty ≤ |gateway.projections.trueExposure .wrapping sym| →
      RiskChecker.check .wrapping limits sym side qty priceFp gateway.tracker gateway.orders =
        .pass := by
  intro always
  have passed := always pairLimits unhedged sampleArgs.symbol .sell 1 0 conformingRun_unhedged
    (by decide) (by decide) (by decide) (by decide) (by decide +kernel) (by decide +kernel)
    (by decide +kernel)
  have blocked : RiskChecker.check .wrapping pairLimits sampleArgs.symbol .sell 1 0
      unhedged.tracker unhedged.orders ≠ .pass := by decide +kernel
  exact blocked passed

end Gateway.FIXGateway

end Hft
