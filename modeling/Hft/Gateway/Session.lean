import Hft.Gateway.FIXGateway
import Mathlib.Logic.Relation

/-!
# Sessions

A session is one process lifetime: replay the log, construct the gateway, then any
sequence of its calls. `SessionStep` says once what a call can do to the gateway and
its components; `sendOrder_cases` and `onMessage_eq_returned_iff` take the two
calls that write apart.
-/

namespace Hft.Gateway

open Logical

namespace FIXGateway

/-- The event `send_order` records. -/
def newOrderEvent (gateway : FIXGateway) (args : SendArgs) : OrderEvent :=
  makeNewOrder args.symbol args.side args.qty args.priceFp
    (StringView.ofList (orderId gateway.orderCounter))

theorem symbol_newOrderEvent (gateway : FIXGateway) (args : SendArgs) :
    (gateway.newOrderEvent args).symbol.string = fieldKey args.symbol := string_strncpy _ 8

/-- The check that `send_order` runs before it does anything. -/
def Accepts (arith : Arithmetic) (gateway : FIXGateway) (args : SendArgs) : Prop :=
  gateway.connected = true ∧
    RiskChecker.check arith gateway.limits args.symbol args.side args.qty args.priceFp
      gateway.tracker gateway.orders = .pass

/-- The three ways through `send_order`: blocked, stopped by a full log, recorded. A
recorded order stays recorded when the session is not found. -/
theorem sendOrder_cases (arith : Arithmetic) (gateway : FIXGateway) (args : SendArgs) (now : Nat)
    (sessionFound : Bool) :
    (¬gateway.Accepts arith args ∧
      gateway.sendOrder arith args now sessionFound = ⟨gateway, none, .ok []⟩) ∨
    (gateway.Accepts arith args ∧ maxEvents ≤ gateway.log.size ∧
      gateway.sendOrder arith args now sessionFound =
        ⟨gateway.nextOrderId.2, none, .error (.overflowError "EventLog full")⟩) ∨
    (∃ log : EventLog, gateway.Accepts arith args ∧ gateway.log.size < maxEvents ∧
      log.events = gateway.log.events ++
        [EventLog.stamp gateway.log.size now (gateway.newOrderEvent args)] ∧
      gateway.sendOrder arith args now sessionFound =
        ⟨{ gateway.nextOrderId.2 with
            log := log
            orders := gateway.orders.applyEvent arith (gateway.newOrderEvent args) },
          some (MessageTranslator.toNewOrderSingle (gateway.newOrderEvent args)),
          if sessionFound then .ok (orderId gateway.orderCounter)
          else .error .sessionNotFound⟩) := by
  by_cases accepted : gateway.Accepts arith args
  · obtain ⟨connected, passed⟩ := accepted
    by_cases room : gateway.log.size < maxEvents
    · right; right
      obtain ⟨log, appended⟩ :=
        EventLog.exists_append_of_room room now (gateway.newOrderEvent args)
      refine ⟨log, ⟨connected, passed⟩, room, (EventLog.append_eq_ok_iff.mp appended).2.1, ?_⟩
      simp only [newOrderEvent] at appended
      simp [sendOrder, connected, passed, nextOrderId, appended, newOrderEvent]
    · right; left
      have full := Nat.not_lt.mp room
      refine ⟨⟨connected, passed⟩, full, ?_⟩
      simp [sendOrder, connected, passed, nextOrderId, EventLog.append_of_full full]
  · left
    refine ⟨accepted, ?_⟩
    by_cases connected : gateway.connected = true
    · have blocked : RiskChecker.check arith gateway.limits args.symbol args.side args.qty
          args.priceFp gateway.tracker gateway.orders ≠ .pass :=
        fun passed => accepted ⟨connected, passed⟩
      simp [sendOrder, connected, blocked]
    · simp [sendOrder, connected]

theorem book_eq_ok_iff {arith : Arithmetic} {gateway after : FIXGateway} {now : Nat}
    {event : OrderEvent} :
    gateway.book arith now event = .ok after ↔
      ∃ log : EventLog, gateway.log.size < maxEvents ∧
        log.events = gateway.log.events ++ [EventLog.stamp gateway.log.size now event] ∧
        after = { gateway with
          log := log
          tracker := gateway.tracker.applyEvent arith event
          orders := gateway.orders.applyEvent arith event } := by
  unfold book
  cases appended : gateway.log.append now event with
  | error thrown =>
      simp only [reduceCtorEq, false_iff]
      rintro ⟨log, room, _, _⟩
      obtain ⟨_, succeeds⟩ := EventLog.exists_append_of_room room now event
      rw [appended] at succeeds
      cases succeeds
  | ok result =>
      obtain ⟨log, sequence⟩ := result
      obtain ⟨room, events, _⟩ := EventLog.append_eq_ok_iff.mp appended
      simp only [Except.ok.injEq]
      constructor
      · rintro rfl
        exact ⟨log, room, events, rfl⟩
      · rintro ⟨other, _, otherEvents, rfl⟩
        rw [EventLog.ext (events.trans otherEvents.symm)]

/-- With room in the log, booking succeeds. -/
theorem exists_book_of_room (arith : Arithmetic) {gateway : FIXGateway}
    (room : gateway.log.size < maxEvents) (now : Nat) (event : OrderEvent) :
    ∃ after, gateway.book arith now event = .ok after := by
  obtain ⟨log, appended⟩ := EventLog.exists_append_of_room room now event
  exact ⟨_, book_eq_ok_iff.mpr ⟨log, room, (EventLog.append_eq_ok_iff.mp appended).2.1, rfl⟩⟩

/-- `onMessage` returns when the report is translated and either carries nothing to
book or the log takes its event. -/
theorem onMessage_eq_returned_iff {arith : Arithmetic} {gateway after : FIXGateway}
    {report : ExecutionReport} {now : Nat} :
    gateway.onMessage arith report now = .returned after ↔
      (MessageTranslator.fromExecutionReport arith report = .ok none ∧ after = gateway) ∨
      ∃ event, MessageTranslator.fromExecutionReport arith report = .ok (some event) ∧
        gateway.book arith now event = .ok after := by
  unfold onMessage
  cases translated : MessageTranslator.fromExecutionReport arith report with
  | error thrown => simp
  | ok booked =>
      cases booked with
      | none => simp [eq_comm]
      | some event => cases bookedEvent : gateway.book arith now event <;> simp [bookedEvent]

def onLogon (gateway : FIXGateway) : FIXGateway := { gateway with connected := true }

def onLogout (gateway : FIXGateway) : FIXGateway := { gateway with connected := false }

/-- One call in a session. The killswitch only reads the components, so its calls do
not appear. -/
inductive SessionStep (arith : Arithmetic) (gateway : FIXGateway) : FIXGateway → Prop where
  | sendOrder (args : SendArgs) (now : Nat) (sessionFound : Bool) :
      SessionStep arith gateway (gateway.sendOrder arith args now sessionFound).gateway
  | fromApp {after : FIXGateway} (message : InboundMessage) (now : Nat)
      (returned : gateway.fromApp arith message now = .returned after) :
      SessionStep arith gateway after
  | onLogon : SessionStep arith gateway gateway.onLogon
  | onLogout : SessionStep arith gateway gateway.onLogout
  | markToMarket (sym : StringView) (mktPriceFp : Int) :
      SessionStep arith gateway
        { gateway with tracker := gateway.tracker.markToMarket arith sym mktPriceFp }

/-- The states of a session started on `log`. -/
def InSession (arith : Arithmetic) (limits : RiskLimits) (log : EventLog) (gateway : FIXGateway) :
    Prop :=
  Relation.ReflTransGen (SessionStep arith) (start arith limits log) gateway

/-- The logs left behind by any number of sessions, one after the other. -/
inductive Produced (arith : Arithmetic) : EventLog → Prop where
  | empty : Produced arith EventLog.empty
  | session {limits : RiskLimits} {log : EventLog} {gateway : FIXGateway}
      (earlier : Produced arith log) (run : InSession arith limits log gateway) :
      Produced arith gateway.log

/-- Everything a returning `fromApp` call may have done. -/
theorem fromApp_cases {arith : Arithmetic} {gateway after : FIXGateway} {message : InboundMessage}
    {now : Nat} (returned : gateway.fromApp arith message now = .returned after) :
    after = gateway ∨ ∃ report event, message = .executionReport report ∧
      MessageTranslator.fromExecutionReport arith report = .ok (some event) ∧
      gateway.book arith now event = .ok after := by
  unfold fromApp crack at returned
  cases message with
  | other msgType => simp at returned
  | executionReport report =>
      obtain ⟨_, same⟩ | ⟨event, translated, booked⟩ := onMessage_eq_returned_iff.mp returned
      · exact .inl same
      · exact .inr ⟨report, event, rfl, translated, booked⟩

/-- No call changes the limits. -/
theorem SessionStep.limits_eq {arith : Arithmetic} {gateway after : FIXGateway}
    (step : SessionStep arith gateway after) :
    after.limits = gateway.limits := by
  cases step with
  | sendOrder args now sessionFound =>
      obtain ⟨_, same⟩ | ⟨_, _, same⟩ | ⟨_, _, _, _, same⟩ :=
        sendOrder_cases arith gateway args now sessionFound <;> rw [same] <;> rfl
  | fromApp message now returned =>
      obtain rfl | ⟨_, _, _, _, booked⟩ := fromApp_cases returned
      · rfl
      · obtain ⟨_, _, _, rfl⟩ := book_eq_ok_iff.mp booked
        rfl
  | onLogon => rfl
  | onLogout => rfl
  | markToMarket => rfl

theorem InSession.limits_eq {arith : Arithmetic} {limits : RiskLimits} {log : EventLog}
    {gateway : FIXGateway} (run : InSession arith limits log gateway) :
    gateway.limits = limits := by
  induction run with
  | refl => rfl
  | tail _ step ih => rw [step.limits_eq, ih]

/-! ## A sample session -/

/-- One share of AAPL, to buy. -/
def sampleArgs : SendArgs := ⟨StringView.ofList (ascii "AAPL"), .buy, 1, 0⟩

/-- A connected gateway in its first session. -/
def connectedGateway : FIXGateway := (start .wrapping {} EventLog.empty).onLogon

/-- The report that an order for one share bought was filled. -/
def filledReport (clOrdId : List UInt8) : ExecutionReport where
  execType := some '2'
  clOrdId := some clOrdId
  symbol := some (ascii "AAPL")
  side := some '1'
  lastShares := some 1
  lastPx := some 175

/-- The report of a fill of any size on either side. -/
def tradedReport (clOrdId : List UInt8) (side : Side) (shares : ℚ) : ExecutionReport :=
  { filledReport clOrdId with side := some (sideField side), lastShares := some shares }

/-- The gateway after a report that it survives. -/
def delivered (gateway : FIXGateway) (report : ExecutionReport) : FIXGateway :=
  match gateway.fromApp .wrapping (.executionReport report) 0 with
  | .returned after => after
  | .terminated => gateway

/-- 100 shares are ordered, 60 of them bought, and one more ordered. -/
def tradedGateway : FIXGateway :=
  (((connectedGateway.sendOrder .wrapping { sampleArgs with qty := 100 } 0 true).gateway.delivered
    { tradedReport (ascii "ORD0") .buy 60 with execType := some '1' }).sendOrder .wrapping
    sampleArgs 0 true).gateway

end FIXGateway

end Hft.Gateway
