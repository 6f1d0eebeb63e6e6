import Hft.Gateway.Doubles
import Hft.OrderManager.MachineWidth
import Hft.Projections
import Hft.Risk.PositionLimit

/-!
# Limit prices across the wire

An order leaves with its price as a double, and its fills come back with theirs. Against an
exchange that honours limit prices, no buy is ever booked above its limit, and no sell more than
one tick below: the two conversions cost at most one tick, averaging the fills costs nothing
more, and however often an order is filled the ticks do not add up.
-/

namespace Hft

open Logical

/-- The price of a fill in ticks, as a report carries it. -/
structure Gateway.TradedAt (cap : Int) (order : Order) (report : Gateway.ExecutionReport)
    (ticks : Int) : Prop where
  lastPx : report.lastPx = some (Gateway.fromFixed ticks)
  nonneg : 0 ≤ ticks
  le : ticks ≤ cap
  buys : order.side = .buy → ticks ≤ order.limitPrice
  sells : order.side ≠ .buy → order.limitPrice ≤ ticks

namespace Order

/-- An order that was filled within its limit, but for the tick that a conversion drops. -/
structure Honoured (cap maxQty : Int) (order : Order) : Prop where
  within : order.Within cap order.filledQty
  sized : order.originalQty ≤ maxQty
  buys : 0 < order.filledQty → order.side = .buy → order.avgFillPrice ≤ order.limitPrice
  sells : 0 < order.filledQty → order.side ≠ .buy → order.limitPrice - 1 ≤ order.avgFillPrice

variable {arith : Arithmetic} {cap maxQty : Int} {order : Order} {event : OrderEvent}

theorem honoured_opened (orderId : CharArray 8) (capNonneg : 0 ≤ cap) (positive : 0 < event.qty)
    (fits : event.qty < 2147483648) (sized : event.qty ≤ maxQty) :
    (opened orderId event).Honoured cap maxQty where
  within := within_opened orderId capNonneg le_rfl positive.le fits
  sized := sized
  buys filled := absurd filled (lt_irrefl 0)
  sells filled := absurd filled (lt_irrefl 0)

/-- Averaging a fill within the limit leaves the order within it. -/
theorem Honoured.fill (honoured : order.Honoured cap maxQty) (machine : FitsMachine cap maxQty)
    (positive : 0 < event.fillQty) (within : order.filledQty + event.fillQty ≤ order.originalQty)
    (priceNonneg : 0 ≤ event.fillPrice) (priceLe : event.fillPrice ≤ cap)
    (buys : order.side = .buy → event.fillPrice ≤ order.limitPrice)
    (sells : order.side ≠ .buy → order.limitPrice - 1 ≤ event.fillPrice) :
    (order.fill arith event).Honoured cap maxQty := by
  have holds := honoured.within.filledNonneg
  have fits := machine.of_le (within.trans honoured.sized)
  rw [fill_exact honoured.within fits positive priceNonneg priceLe]
  have average := @avgFillPrice_fill event order (by omega)
  refine ⟨honoured.within.fill positive priceNonneg priceLe, honoured.sized, ?_, ?_⟩
  · intro _ side
    rw [average]
    change averaged _ _ _ _ ≤ order.limitPrice
    obtain first | later := holds.eq_or_lt
    · rw [← first, averaged_zero _ _ positive]
      exact buys side
    · exact averaged_le holds positive (honoured.buys later side) (buys side)
  · intro _ side
    rw [average]
    change order.limitPrice - 1 ≤ averaged _ _ _ _
    obtain first | later := holds.eq_or_lt
    · rw [← first, averaged_zero _ _ positive]
      exact sells side
    · exact le_averaged holds positive (honoured.sells later side) (sells side)

/-- The end of an order changes nothing that was booked. -/
theorem Honoured.ended (honoured : order.Honoured cap maxQty) (state : OrderState)
    (event : OrderEvent) : (order.ended state event).Honoured cap maxQty where
  within := { honoured.within with }
  sized := honoured.sized
  buys := honoured.buys
  sells := honoured.sells

end Order

namespace Gateway

/-- A report that carries a quantity carries a price. -/
theorem MessageTranslator.fillPrice_reportedEvent {arith : Arithmetic} {report : ExecutionReport}
    {etype : EventType} {symbol clOrdId : List UInt8} {side : Char}
    (isFill : etype = .partialFill ∨ etype = .fullFill)
    (positive : 0 < (reportedEvent arith report etype symbol clOrdId side).fillQty) :
    ∃ price, report.lastPx = some price ∧
      (reportedEvent arith report etype symbol clOrdId side).fillPrice = toFixed arith price := by
  unfold reportedEvent withFill at positive ⊢
  rw [if_pos isFill] at positive ⊢
  cases shares : report.lastShares with
  | none => simp [shares, reportHeader, OrderEvent.zero] at positive
  | some lastShares =>
      cases px : report.lastPx with
      | none => simp [shares, px, reportHeader, OrderEvent.zero] at positive
      | some price => exact ⟨price, rfl, rfl⟩

/-- A traded price is booked as it was, or a tick lower. -/
theorem TradedAt.booked {cap ticks : Int} {order : Order} {report : ExecutionReport}
    (traded : TradedAt cap order report ticks) (arith : Arithmetic) (small : cap < 2 ^ 52) :
    ∃ price, report.lastPx = some price ∧ 0 ≤ toFixed arith price ∧ toFixed arith price ≤ ticks ∧
      ticks - 1 ≤ toFixed arith price := by
  have nonneg := traded.nonneg
  have below : |ticks| < 2 ^ 52 := (abs_of_nonneg nonneg).trans_lt (traded.le.trans_lt small)
  exact ⟨_, traded.lastPx, (toFixed_fromFixed_bounds arith below).1 nonneg⟩

namespace FIXGateway

/-- One call of a run in which the exchange reports on open orders and fills them within their
limits. -/
inductive HonouringStep (arith : Arithmetic) (cap : Int) (gateway : FIXGateway) :
    FIXGateway → Prop where
  | send (args : SendArgs) (now : Nat) (sessionFound : Bool) (positive : 0 < args.qty)
      (price : 0 ≤ args.priceFp) (slot : gateway.orders.orderCount < maxOrders) :
      HonouringStep arith cap gateway (gateway.sendOrder arith args now sessionFound).gateway
  | report {after : FIXGateway} (report : ExecutionReport) (now : Nat)
      (conforming : ConformingReport arith gateway.orders report)
      (honours : ∀ order ∈ gateway.orders.slots, ∀ clOrdId, report.clOrdId = some clOrdId →
        fieldKey (StringView.ofList clOrdId) = order.key → report.lastPx ≠ none →
        ∃ ticks, TradedAt cap order report ticks)
      (returned : gateway.fromApp arith (.executionReport report) now = .returned after) :
      HonouringStep arith cap gateway after
  | onLogon : HonouringStep arith cap gateway gateway.onLogon
  | onLogout : HonouringStep arith cap gateway gateway.onLogout

variable {arith : Arithmetic} {cap : Int} {limits : RiskLimits} {gateway after : FIXGateway}

theorem HonouringStep.conformingStep (step : HonouringStep arith cap gateway after) :
    ConformingStep arith (fun _ _ => True) gateway after := by
  cases step with
  | send args now sessionFound positive price slot =>
      exact .send args now sessionFound positive price slot fun _ => trivial
  | report report now conforming _ returned => exact .report report now conforming returned
  | onLogon => exact .onLogon
  | onLogout => exact .onLogout

/-- Every order is within its limit. -/
def LimitsHonoured (cap maxQty : Int) (orders : OrderManager) : Prop :=
  ∀ order ∈ orders.slots, order.Honoured cap maxQty

/-- What the event of a report does to the order it names. -/
theorem LimitsHonoured.report {maxQty : Int} (honoured : LimitsHonoured cap maxQty gateway.orders)
    (machine : FitsMachine cap maxQty) (small : cap < 2 ^ 52)
    (sound : ∀ order ∈ gateway.orders.slots, order.Sound) {report : ExecutionReport}
    (conforming : ConformingReport arith gateway.orders report)
    (honours : ∀ order ∈ gateway.orders.slots, ∀ clOrdId, report.clOrdId = some clOrdId →
      fieldKey (StringView.ofList clOrdId) = order.key → report.lastPx ≠ none →
      ∃ ticks, TradedAt cap order report ticks)
    {event : OrderEvent}
    (translated : MessageTranslator.fromExecutionReport arith report = .ok (some event)) :
    LimitsHonoured cap maxQty (gateway.orders.applyEvent arith event) := by
  have notNew := MessageTranslator.type_ne_newOrder translated
  have taken := conforming.takes gateway.projections translated
  obtain ⟨execType, etype, symbol, clOrdId, side, _, _, _, hasId, _, rfl⟩ :=
    MessageTranslator.fromExecutionReport_eq_some_iff.mp translated
  intro slot member
  obtain old | ⟨order, found, rfl⟩ | ⟨isNew, _⟩ := OrderManager.mem_applyEvent member
  · exact honoured slot old
  · obtain ⟨inTable, named⟩ := SlotTable.find?_eq_some_iff.mp found
    have before := honoured order inTable
    rw [MessageTranslator.orderId_reportedEvent, string_strncpy] at named
    cases taken with
    | newOrder type => exact absurd type notNew
    | @fill other isFill foundOther isOpen _ _ positive fits =>
        cases Option.some.inj (found.symm.trans foundOther)
        rw [(sound order inTable).remainingQty_eq] at fits
        have isTrade : etype = .partialFill ∨ etype = .fullFill := by
          simpa [MessageTranslator.isFill_reportedEvent] using isFill
        obtain ⟨price, lastPx, booked⟩ :=
          MessageTranslator.fillPrice_reportedEvent isTrade positive
        obtain ⟨ticks, traded⟩ := honours order inTable clOrdId hasId named.symm
          (by rw [lastPx]; exact Option.some_ne_none price)
        obtain ⟨same, samePx, nonneg, le, near⟩ := traded.booked arith small
        cases Option.some.inj (lastPx.symm.trans samePx)
        rw [← booked] at nonneg le near
        have isRewrite : OrderManager.rewrite arith
            (MessageTranslator.reportedEvent arith report etype symbol clOrdId side) order =
              order.fill arith
                (MessageTranslator.reportedEvent arith report etype symbol clOrdId side) := by
          unfold OrderManager.rewrite
          rw [MessageTranslator.type_reportedEvent]
          obtain rfl | rfl := isTrade <;> rfl
        rw [isRewrite]
        exact before.fill machine positive (by omega) nonneg (le.trans traded.le)
          (fun buys => le.trans (traded.buys buys))
          (fun sells => (sub_le_sub_right (traded.sells sells) 1).trans near)
    | @close other type foundOther isOpen =>
        cases Option.some.inj (found.symm.trans foundOther)
        unfold OrderManager.rewrite
        obtain type | type := type
        · rw [type]
          exact before.ended .cancelled _
        · rw [type]
          exact before.ended .rejected _
  · exact absurd isNew notNew

theorem LimitsHonoured.step (typed : gateway.limits.maxOrderQty < 2 ^ 31)
    (honoured : LimitsHonoured cap gateway.limits.maxOrderQty gateway.orders)
    (machine : FitsMachine cap gateway.limits.maxOrderQty) (small : cap < 2 ^ 52)
    (sound : ∀ order ∈ gateway.orders.slots, order.Sound)
    (taken : HonouringStep arith cap gateway after) :
    LimitsHonoured cap gateway.limits.maxOrderQty after.orders := by
  cases taken with
  | send args now sessionFound positive price slot =>
      obtain ⟨_, blocked⟩ | ⟨_, _, stopped⟩ | ⟨log, accepted, _, _, sent⟩ :=
        sendOrder_cases arith gateway args now sessionFound
      · rw [blocked]
        exact honoured
      · rw [stopped]
        exact honoured
      · rw [sent]
        have sized := (RiskChecker.check_eq_pass_iff.mp accepted.2).1
        have opens : ∀ orderId : CharArray 8, (Order.opened orderId
            (gateway.newOrderEvent args)).Honoured cap gateway.limits.maxOrderQty :=
          fun orderId => Order.honoured_opened orderId machine.capNonneg positive
            (sized.trans_lt typed) sized
        intro order member
        obtain old | ⟨before, _, rfl⟩ | ⟨_, rfl⟩ := OrderManager.mem_applyEvent member
        · exact honoured order old
        · exact opens before.orderId
        · exact opens _
  | report report now conforming honours returned =>
      obtain rfl | ⟨other, event, same, translated, booked⟩ := fromApp_cases returned
      · exact honoured
      · cases same
        obtain ⟨log, _, _, rfl⟩ := book_eq_ok_iff.mp booked
        exact honoured.report machine small sound conforming honours translated
  | onLogon => exact honoured
  | onLogout => exact honoured

/-- Against an exchange that honours limits, the average of a buy's fills is at most its limit,
and that of a sell's at least its limit less one tick, in every state and after any number of
fills. -/
theorem fills_honour_limits (machine : FitsMachine cap limits.maxOrderQty) (small : cap < 2 ^ 52)
    (run : Relation.ReflTransGen (HonouringStep arith cap) (start arith limits EventLog.empty)
      gateway) :
    ∀ order ∈ gateway.orders.slots, 0 < order.filledQty →
      (order.side = .buy → order.avgFillPrice ≤ order.limitPrice) ∧
      (order.side ≠ .buy → order.limitPrice - 1 ≤ order.avgFillPrice) := by
  have typed : limits.maxOrderQty < 2 ^ 31 := machine.volumeFits
  have honoured : ConformingRun arith (fun _ _ => True) limits gateway ∧
      LimitsHonoured cap limits.maxOrderQty gateway.orders := by
    induction run with
    | refl => exact ⟨.refl, fun _ member => absurd member List.not_mem_nil⟩
    | tail _ taken ih =>
        obtain ⟨conforming, before⟩ := ih
        have same := conforming.inSession.limits_eq
        rw [← same] at machine typed before
        refine ⟨conforming.tail taken.conformingStep, ?_⟩
        rw [← same]
        exact before.step typed machine small (conforming.accounted (same ▸ typed)).sound taken
  intro order member filled
  have within := honoured.2 order member
  exact ⟨within.buys filled, within.sells filled⟩

/-- One share offered at 249 ticks. -/
def offered : FIXGateway :=
  (connectedGateway.sendOrder .wrapping
    { sampleArgs with side := .sell, priceFp := 249 } 0 true).gateway

/-- It is sold at that price. -/
def soldReport : ExecutionReport :=
  { tradedReport (ascii "ORD0") .sell 1 with lastPx := some (fromFixed 249) }

/-- The tick is lost: the sale is booked at 248. -/
theorem fills_honour_limits_sold :
    ∃ order ∈ (offered.delivered soldReport).orders.slots, order.limitPrice = 249 ∧
      order.avgFillPrice = 248 ∧ order.limitPrice - 1 ≤ order.avgFillPrice := by
  have placed : Relation.ReflTransGen (HonouringStep .wrapping 249)
      (start .wrapping {} EventLog.empty) offered :=
    (Relation.ReflTransGen.single .onLogon).tail
      (.send { sampleArgs with side := .sell, priceFp := 249 } 0 true (by decide) (by decide)
        (by decide))
  have each : ∀ order ∈ offered.orders.slots, order.side = .sell ∧ order.limitPrice = 249 := by
    decide +kernel
  have conforming : ConformingReport .wrapping offered.orders soldReport := by
    have pending : ∃ order ∈ offered.orders.slots, (order.isOpen ∧ order.key = ascii "ORD0") ∧
        order.symbol.string = ascii "AAPL" ∧ order.side = .sell ∧
          order.remainingQty .wrapping = 1 := by decide +kernel
    have one : Arithmetic.wrapping.int32 (truncate 1) = 1 := by decide
    obtain ⟨order, member, ⟨isOpen, named⟩, symbol, side, remaining⟩ := pending
    exact .fill member isOpen (.inr rfl) rfl (by rw [named]; decide) rfl (by rw [symbol]; decide)
      (by rw [side]; rfl) rfl rfl (by rw [one]; decide) (by rw [one, remaining])
  have sold := placed.tail (.report soldReport 0 conforming (fun order member _ _ _ _ =>
    ⟨249, rfl, by decide, by decide, fun _ => (each order member).2.ge,
      fun _ => (each order member).2.le⟩)
    (show _ = Outcome.returned (offered.delivered soldReport) from rfl))
  have filled : ∃ order ∈ (offered.delivered soldReport).orders.slots,
      (0 < order.filledQty ∧ order.side ≠ .buy) ∧ order.limitPrice = 249 ∧
        order.avgFillPrice = 248 := by decide +kernel
  obtain ⟨order, member, ⟨positive, sells⟩, limit, average⟩ := filled
  exact ⟨order, member, limit, average,
    (fills_honour_limits ⟨by decide, by decide, by decide⟩ (by decide) sold order member
      positive).2 sells⟩

end FIXGateway

end Gateway

end Hft
