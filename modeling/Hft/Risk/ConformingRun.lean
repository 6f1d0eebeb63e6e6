import Hft.Gateway.Tracking
import Hft.Risk.Ledger

/-!
# Runs against a conforming exchange

The strategy sends orders of positive size through the risk check, and the exchange
reports on open orders only: fills within the remaining quantity under the order's own
symbol and side, cancels and rejects. `ConformingStep.takes` is the link to the ledger:
each call either leaves the two projections alone or applies one event that the ledger
takes, and a new order among these has passed the check.
-/

namespace Hft.Gateway

open Logical

/-- A report that an exchange may send about an order in the table. -/
inductive ConformingReport (arith : Arithmetic) (orders : OrderManager)
    (report : ExecutionReport) : Prop where
  | fill {order : Order} {clOrdId symbol : List UInt8} {shares price : ℚ}
      (member : order ∈ orders.slots) (isOpen : order.isOpen)
      (execType : report.execType = some '1' ∨ report.execType = some '2')
      (hasId : report.clOrdId = some clOrdId)
      (sameId : fieldKey (StringView.ofList clOrdId) = order.key)
      (hasSymbol : report.symbol = some symbol)
      (sameSymbol : fieldKey (StringView.ofList symbol) = order.symbol.string)
      (sameSide : report.side = some (sideField order.side))
      (lastShares : report.lastShares = some shares) (lastPx : report.lastPx = some price)
      (positive : 0 < arith.int32 (truncate shares))
      (fits : arith.int32 (truncate shares) ≤ order.remainingQty arith) :
      ConformingReport arith orders report
  | close {order : Order} {clOrdId symbol : List UInt8} {side : Char}
      (member : order ∈ orders.slots) (isOpen : order.isOpen)
      (execType : report.execType = some '4' ∨ report.execType = some '8')
      (hasId : report.clOrdId = some clOrdId)
      (sameId : fieldKey (StringView.ofList clOrdId) = order.key)
      (hasSymbol : report.symbol = some symbol) (hasSide : report.side = some side) :
      ConformingReport arith orders report

/-- A side survives the trip through a report's side field, up to its sign. -/
theorem sign_of_sideField (side : Side) :
    (if sideField side = '1' then Side.buy else Side.sell).sign = side.sign := by
  cases side <;> rfl

/-- The event translated from a conforming report is one the ledger takes. -/
theorem ConformingReport.takes {arith : Arithmetic} (book : Book) {report : ExecutionReport}
    (conforming : ConformingReport arith book.orders report) {event : OrderEvent}
    (translated : MessageTranslator.fromExecutionReport arith report = .ok (some event)) :
    book.Takes arith event := by
  obtain ⟨execType, etype, symbol, clOrdId, side, hasType, booked, hasSymbol, hasId, hasSide,
    rfl⟩ := MessageTranslator.fromExecutionReport_eq_some_iff.mp translated
  cases conforming with
  | @fill order _ _ shares price member isOpen type id sameId sym sameSymbol sameSide lastShares
      lastPx positive fits =>
      rw [hasId] at id
      rw [hasSymbol] at sym
      rw [hasSide] at sameSide
      cases id
      cases sym
      cases sameSide
      have isFill : etype = .partialFill ∨ etype = .fullFill := by
        rw [hasType] at type
        obtain same | same := type <;> cases same <;>
          simp [MessageTranslator.bookedType] at booked <;> simp [← booked]
      have qty := MessageTranslator.fillQty_reportedEvent arith report etype symbol clOrdId
        (sideField order.side) isFill lastShares lastPx
      refine @Book.Takes.fill _ _ _ order ?_ ?_ isOpen ?_ ?_ ?_ ?_
      · rw [MessageTranslator.isFill_reportedEvent]
        simpa using isFill
      · apply SlotTable.find?_eq_some_iff.mpr
        rw [MessageTranslator.orderId_reportedEvent, string_strncpy]
        exact ⟨member, sameId.symm⟩
      · rw [MessageTranslator.symbol_reportedEvent, string_strncpy]
        exact sameSymbol
      · rw [MessageTranslator.side_reportedEvent]
        exact sign_of_sideField order.side
      · rw [qty]
        exact positive
      · rw [qty]
        exact fits
  | @close order _ _ _ member isOpen type id sameId sym side =>
      rw [hasId] at id
      cases id
      have ends : etype = .cancel ∨ etype = .reject := by
        rw [hasType] at type
        obtain same | same := type <;> cases same <;>
          simp [MessageTranslator.bookedType] at booked <;> simp [← booked]
      refine @Book.Takes.close _ _ _ order ?_ ?_ isOpen
      · rw [MessageTranslator.type_reportedEvent]
        exact ends
      · apply SlotTable.find?_eq_some_iff.mpr
        rw [MessageTranslator.orderId_reportedEvent, string_strncpy]
        exact ⟨member, sameId.symm⟩

namespace FIXGateway

/-- One call of a conforming run. `allowed` restricts the orders that the strategy may
get accepted; the unrestricted run allows every one. -/
inductive ConformingStep (arith : Arithmetic) (allowed : FIXGateway → SendArgs → Prop)
    (gateway : FIXGateway) : FIXGateway → Prop where
  | send (args : SendArgs) (now : Nat) (sessionFound : Bool) (positive : 0 < args.qty)
      (price : 0 ≤ args.priceFp) (slot : gateway.orders.orderCount < maxOrders)
      (permitted : gateway.Accepts arith args → allowed gateway args) :
      ConformingStep arith allowed gateway
        (gateway.sendOrder arith args now sessionFound).gateway
  | report {after : FIXGateway} (report : ExecutionReport) (now : Nat)
      (conforming : ConformingReport arith gateway.orders report)
      (returned : gateway.fromApp arith (.executionReport report) now = .returned after) :
      ConformingStep arith allowed gateway after
  | onLogon : ConformingStep arith allowed gateway gateway.onLogon
  | onLogout : ConformingStep arith allowed gateway gateway.onLogout

/-- The states of a conforming run that began with an empty log. -/
def ConformingRun (arith : Arithmetic) (allowed : FIXGateway → SendArgs → Prop)
    (limits : RiskLimits) (gateway : FIXGateway) : Prop :=
  Relation.ReflTransGen (ConformingStep arith allowed) (start arith limits EventLog.empty) gateway

/-- The two projections of a gateway. -/
def projections (gateway : FIXGateway) : Book := ⟨gateway.tracker, gateway.orders⟩

variable {arith : Arithmetic} {allowed : FIXGateway → SendArgs → Prop} {limits : RiskLimits}
  {gateway after : FIXGateway}

theorem ConformingStep.sessionStep (step : ConformingStep arith allowed gateway after) :
    SessionStep arith gateway after := by
  cases step with
  | send args now sessionFound => exact .sendOrder args now sessionFound
  | report report now _ returned => exact .fromApp _ now returned
  | onLogon => exact .onLogon
  | onLogout => exact .onLogout

theorem ConformingRun.inSession (run : ConformingRun arith allowed limits gateway) :
    InSession arith limits EventLog.empty gateway :=
  Relation.ReflTransGen.mono (fun _ _ step => step.sessionStep) _ _ run

/-- A `send_order` call leaves the projections alone, or its order is accepted and taken. -/
theorem sendOrder_takes (run : InSession arith limits EventLog.empty gateway)
    (typed : gateway.limits.maxOrderQty < 2 ^ 31) {args : SendArgs} (positive : 0 < args.qty)
    (slot : gateway.orders.orderCount < maxOrders) (now : Nat) (sessionFound : Bool) :
    (gateway.sendOrder arith args now sessionFound).gateway.projections = gateway.projections ∨
    gateway.Accepts arith args ∧ gateway.projections.Takes arith (gateway.newOrderEvent args) ∧
      (gateway.sendOrder arith args now sessionFound).gateway.projections =
        gateway.projections.apply arith (gateway.newOrderEvent args) := by
  obtain ⟨_, blocked⟩ | ⟨_, _, stopped⟩ | ⟨log, accepted, room, _, sent⟩ :=
    sendOrder_cases arith gateway args now sessionFound
  · exact .inl (by rw [blocked])
  · exact .inl (by rw [stopped]; rfl)
  · right
    have bounded := (RiskChecker.check_eq_pass_iff.mp accepted.2).1
    refine ⟨accepted, .newOrder rfl (isNew_newOrderEvent run room args) slot positive
      (bounded.trans_lt typed), ?_⟩
    rw [sent]
    simp only [projections, Book.apply]
    rw [PositionTracker.applyEvent_of_not_fill arith _ rfl]
    rfl

/-- A conforming report leaves the projections alone, or its event is taken. -/
theorem report_takes {report : ExecutionReport} {now : Nat}
    (conforming : ConformingReport arith gateway.orders report)
    (returned : gateway.fromApp arith (.executionReport report) now = .returned after) :
    after.projections = gateway.projections ∨
    ∃ event, MessageTranslator.fromExecutionReport arith report = .ok (some event) ∧
      gateway.projections.Takes arith event ∧
      after.projections = gateway.projections.apply arith event := by
  obtain rfl | ⟨sameReport, event, same, translated, booked⟩ := fromApp_cases returned
  · exact .inl rfl
  · cases same
    obtain ⟨log, _, _, rfl⟩ := book_eq_ok_iff.mp booked
    exact .inr ⟨event, translated, conforming.takes gateway.projections translated, rfl⟩

/-- Each call of a conforming run leaves the projections alone or applies one event that
the ledger takes; a new order among these was accepted and allowed. -/
theorem ConformingStep.takes (run : ConformingRun arith allowed limits gateway)
    (typed : gateway.limits.maxOrderQty < 2 ^ 31)
    (step : ConformingStep arith allowed gateway after) :
    after.projections = gateway.projections ∨
    ∃ event, gateway.projections.Takes arith event ∧
      after.projections = gateway.projections.apply arith event ∧
      (event.type = .newOrder → ∃ args, event = gateway.newOrderEvent args ∧
        gateway.Accepts arith args ∧ allowed gateway args ∧ 0 < args.qty) := by
  cases step with
  | send args now sessionFound positive price slot permitted =>
      rcases sendOrder_takes run.inSession typed positive slot now sessionFound with
        unchanged | ⟨accepted, taken, applied⟩
      · exact .inl unchanged
      · exact .inr ⟨_, taken, applied, fun _ =>
          ⟨args, rfl, accepted, permitted accepted, positive⟩⟩
  | report report now conforming returned =>
      rcases report_takes conforming returned with unchanged | ⟨event, translated, taken, applied⟩
      · exact .inl unchanged
      · exact .inr ⟨event, taken, applied, fun isNew =>
          absurd isNew (MessageTranslator.type_ne_newOrder translated)⟩
  | onLogon => exact .inl rfl
  | onLogout => exact .inl rfl

/-- With orders of at most 10,000, the events are ones the ledger admits. -/
theorem ConformingStep.simulates (run : ConformingRun arith allowed limits gateway)
    (sized : gateway.limits.maxOrderQty ≤ 10000)
    (step : ConformingStep arith allowed gateway after) :
    after.projections = gateway.projections ∨
    ∃ event, gateway.projections.Admits arith event ∧
      after.projections = gateway.projections.apply arith event ∧
      (event.type = .newOrder → ∃ args, event = gateway.newOrderEvent args ∧
        gateway.Accepts arith args ∧ allowed gateway args ∧ 0 < args.qty) := by
  rcases step.takes run (by omega) with unchanged | ⟨event, taken, applied, approved⟩
  · exact .inl unchanged
  · refine .inr ⟨event, ⟨taken, fun isNew => ?_⟩, applied, approved⟩
    obtain ⟨args, rfl, accepted, _⟩ := approved isNew
    exact (RiskChecker.check_eq_pass_iff.mp accepted.2).1.trans sized

/-- The projections of a conforming run agree. -/
theorem ConformingRun.accounted (typed : limits.maxOrderQty < 2 ^ 31)
    (run : ConformingRun arith allowed limits gateway) : gateway.projections.Accounted := by
  induction run with
  | refl => exact Book.accounted_initial
  | @tail before last run step ih =>
      have same := ConformingRun.inSession run |>.limits_eq
      rcases step.takes run (same ▸ typed) with unchanged | ⟨event, taken, applied, _⟩
      · rw [unchanged]
        exact ih
      · rw [applied]
        exact ih.apply taken

/-- The projections of a conforming run form a ledger run. -/
theorem ConformingRun.reachable (sized : limits.maxOrderQty ≤ 10000)
    (run : ConformingRun arith allowed limits gateway) :
    gateway.projections.Reachable arith := by
  induction run with
  | refl => exact .refl
  | @tail before last run step ih =>
      have same := ConformingRun.inSession run |>.limits_eq
      obtain unchanged | ⟨event, admitted, applied, _⟩ :=
        step.simulates run (same ▸ sized)
      · rw [unchanged]
        exact ih
      · exact ih.tail ⟨event, admitted, applied⟩

end FIXGateway

end Hft.Gateway
