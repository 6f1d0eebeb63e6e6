import Hft.Gateway.MessageTranslator
import Hft.RiskChecker

/-!
# The gateway, call by call

`sendOrder` and `fromApp` as state transformers of the gateway and the three
components it refers to. What the calls cannot decide themselves is an argument:
the clock, whether the session can be found, and the message that arrived. A
call that lets an exception out of a `noexcept` function ends the process.
-/

namespace Hft.Gateway

open Logical

/-- The gateway with the components it refers to. -/
structure FIXGateway where
  log : EventLog
  tracker : PositionTracker
  orders : OrderManager
  limits : RiskLimits
  connected : Bool
  orderCounter : Nat

namespace FIXGateway

/-- A process started on a log: replay into both components, then construct the
gateway. `main` holds the default limits; the constructor takes any. -/
def start (arith : Arithmetic) (limits : RiskLimits) (log : EventLog) : FIXGateway where
  log := log
  tracker := PositionTracker.initial.replayFrom arith log
  orders := OrderManager.initial.replayFrom arith log
  limits := limits
  connected := false
  orderCounter := 0

/-- The text of the order id with a given number. -/
def orderId (number : Nat) : List UInt8 := ascii "ORD" ++ toDecimal number

/-- `next_order_id`, with the counter's 64-bit increment. -/
def nextOrderId (gateway : FIXGateway) : List UInt8 × FIXGateway :=
  (orderId gateway.orderCounter,
    { gateway with orderCounter := (gateway.orderCounter + 1) % 2 ^ 64 })

/-- What a `send_order` call leaves behind: the state, the message it handed to
`sendToTarget` if it came that far, and the id it returned or the exception that
left it. -/
structure SendOutcome where
  gateway : FIXGateway
  handed : Option NewOrderSingle
  result : Except Thrown (List UInt8)

/-- The arguments of a `send_order` call. -/
structure SendArgs where
  symbol : StringView
  side : Side
  qty : Int
  priceFp : Int

def sendOrder (arith : Arithmetic) (gateway : FIXGateway) (args : SendArgs) (now : Nat)
    (sessionFound : Bool) : SendOutcome :=
  if gateway.connected = false then ⟨gateway, none, .ok []⟩
  else if RiskChecker.check arith gateway.limits args.symbol args.side args.qty args.priceFp
      gateway.tracker gateway.orders ≠ .pass then ⟨gateway, none, .ok []⟩
  else
    let (oid, numbered) := gateway.nextOrderId
    let event := makeNewOrder args.symbol args.side args.qty args.priceFp (StringView.ofList oid)
    match numbered.log.append now event with
    | .error thrown => ⟨numbered, none, .error thrown⟩
    | .ok (log, _) =>
        -- The event was appended by value, so the manager sees it unstamped.
        let recorded := { numbered with
          log := log
          orders := numbered.orders.applyEvent arith event }
        ⟨recorded, some (MessageTranslator.toNewOrderSingle event),
          if sessionFound then .ok oid else .error .sessionNotFound⟩

/-- `send_order` with a `double` price. -/
def sendOrderAt (arith : Arithmetic) (gateway : FIXGateway) (symbol : StringView) (side : Side)
    (qty : Int) (price : ℚ) (now : Nat) (sessionFound : Bool) : SendOutcome :=
  gateway.sendOrder arith ⟨symbol, side, qty, toFixed arith price⟩ now sessionFound

/-- How a `noexcept` callback ends. -/
inductive Outcome where
  | returned (gateway : FIXGateway)
  | terminated

/-- Log, tracker, manager: the three bookkeeping calls for one event. -/
def book (arith : Arithmetic) (gateway : FIXGateway) (now : Nat) (event : OrderEvent) :
    Except Thrown FIXGateway :=
  match gateway.log.append now event with
  | .error thrown => .error thrown
  | .ok (log, _) => .ok { gateway with
      log := log
      tracker := gateway.tracker.applyEvent arith event
      orders := gateway.orders.applyEvent arith event }

def onMessage (arith : Arithmetic) (gateway : FIXGateway) (report : ExecutionReport) (now : Nat) :
    Outcome :=
  match MessageTranslator.fromExecutionReport arith report with
  | .error _ => .terminated
  | .ok none => .returned gateway
  | .ok (some event) =>
      match gateway.book arith now event with
      | .error _ => .terminated
      | .ok booked => .returned booked

/-- An inbound application message: an `ExecutionReport`, or a type for which no
`onMessage` is overridden. -/
inductive InboundMessage where
  | executionReport (report : ExecutionReport)
  | other (msgType : String)

/-- `crack`: route to the overridden handler, or throw. -/
def crack (arith : Arithmetic) (gateway : FIXGateway) (message : InboundMessage) (now : Nat) :
    Except Thrown Outcome :=
  match message with
  | .executionReport report => .ok (gateway.onMessage arith report now)
  | .other _ => .error .unsupportedMessageType

def fromApp (arith : Arithmetic) (gateway : FIXGateway) (message : InboundMessage) (now : Nat) :
    Outcome :=
  match gateway.crack arith message now with
  | .ok outcome => outcome
  | .error _ => .terminated

end FIXGateway

end Hft.Gateway
