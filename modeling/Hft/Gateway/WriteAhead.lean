import Hft.Gateway.Killswitch
import Hft.Gateway.Session

/-!
# Orders on the wire and orders in the log

`send_order` appends its event before it hands the order to the session, so that a crash in
between loses nothing. The killswitch hands over orders as well, and `flatten` appends
nothing. `Traffic` keeps every message next to the log as it was when the message was
handed over; `write_ahead` holds as long as `flatten` finds nothing to close.
-/

namespace Hft.Gateway

open Logical

/-- A message handed to `sendToTarget`, found or not. -/
inductive Outbound where
  | order (message : NewOrderSingle)
  | cancel (request : OrderCancelRequest)

/-- A gateway with the history of what was handed to the session, each message with the
log of that moment. -/
structure Traffic where
  gateway : FIXGateway
  handed : List (Outbound × EventLog)

/-- The log holds a `NewOrder` with the message's id, symbol, side and quantity. -/
def Logged (log : EventLog) (message : NewOrderSingle) : Prop :=
  ∃ event ∈ log.events, event.type = .newOrder ∧ event.orderId.string = message.clOrdId ∧
    event.symbol.string = message.symbol ∧ sideField event.side = message.side ∧
    (event.qty : ℚ) = message.orderQty

instance (log : EventLog) (message : NewOrderSingle) : Decidable (Logged log message) :=
  inferInstanceAs (Decidable (∃ event ∈ log.events, _))

theorem Logged.mono {log longer : EventLog} (grows : log.events <+: longer.events)
    {message : NewOrderSingle} (logged : Logged log message) : Logged longer message := by
  obtain ⟨event, member, fields⟩ := logged
  exact ⟨event, grows.subset member, fields⟩

namespace Traffic

/-- The traffic of a process that has just started on a log. -/
def start (arith : Arithmetic) (limits : RiskLimits) (log : EventLog) : Traffic :=
  ⟨FIXGateway.start arith limits log, []⟩

/-- Messages handed over while the log stays as it is. -/
def hand (traffic : Traffic) (messages : List Outbound) : Traffic :=
  { traffic with
    handed := traffic.handed ++ messages.map fun message => (message, traffic.gateway.log) }

/-- One call. `emergency_cancel_all` and `execute` are `cancelAll` with their own prefix.
`mayFlatten` restricts the trackers on which `flatten` is called; the unrestricted run
allows every one. -/
inductive Step (arith : Arithmetic) (mayFlatten : PositionTracker → Prop) (traffic : Traffic) :
    Traffic → Prop where
  | sendOrder (args : FIXGateway.SendArgs) (now : Nat) (sessionFound : Bool) :
      Step arith mayFlatten traffic
        (hand { traffic with
            gateway := (traffic.gateway.sendOrder arith args now sessionFound).gateway }
          ((traffic.gateway.sendOrder arith args now sessionFound).handed.toList.map .order))
  | cancelAll (idPrefix : List UInt8) (sessionFound : Nat → Bool) :
      Step arith mayFlatten traffic
        (traffic.hand ((Killswitch.cancelAll traffic.gateway.orders idPrefix sessionFound).map
          fun attempt => .cancel attempt.message))
  | flatten (idPrefix : List UInt8) (sessionFound : Nat → Bool)
      (permitted : mayFlatten traffic.gateway.tracker) :
      Step arith mayFlatten traffic
        (traffic.hand ((Killswitch.flatten arith traffic.gateway.tracker idPrefix
          sessionFound).map fun attempt => .order attempt.message))
  | fromApp {after : FIXGateway} (message : FIXGateway.InboundMessage) (now : Nat)
      (returned : traffic.gateway.fromApp arith message now = .returned after) :
      Step arith mayFlatten traffic { traffic with gateway := after }
  | onLogon : Step arith mayFlatten traffic { traffic with gateway := traffic.gateway.onLogon }
  | onLogout : Step arith mayFlatten traffic { traffic with gateway := traffic.gateway.onLogout }
  | markToMarket (sym : StringView) (mktPriceFp : Int) :
      Step arith mayFlatten traffic { traffic with
        gateway := { traffic.gateway with
          tracker := traffic.gateway.tracker.markToMarket arith sym mktPriceFp } }

/-- Every order handed over was in the log by then, and still is. -/
structure WrittenAhead (traffic : Traffic) : Prop where
  before : ∀ message log, (Outbound.order message, log) ∈ traffic.handed → Logged log message
  kept : ∀ message log, (message, log) ∈ traffic.handed →
    log.events <+: traffic.gateway.log.events

/-- Nothing to close. -/
def AllFlat (tracker : PositionTracker) : Prop :=
  ∀ position ∈ tracker.slots, position.isFlat = true

/-- `flatten` sends nothing when every position is flat. -/
theorem flatten_of_allFlat {tracker : PositionTracker} (flat : AllFlat tracker)
    (arith : Arithmetic) (idPrefix : List UInt8) (sessionFound : Nat → Bool) :
    Killswitch.flatten arith tracker idPrefix sessionFound = [] := by
  have nothing : (tracker.slots.filter fun position => !position.isFlat) = [] := by
    apply List.filter_eq_nil_iff.mpr
    intro position member
    simp [flat position member]
  rw [Killswitch.flatten_eq_mapIdx, nothing]
  rfl

namespace WrittenAhead

variable {arith : Arithmetic} {traffic : Traffic}

/-- A call that hands over nothing and only adds to the log. -/
theorem of_grows (ahead : traffic.WrittenAhead) {after : FIXGateway}
    (grows : traffic.gateway.log.events <+: after.log.events) :
    WrittenAhead { traffic with gateway := after } :=
  ⟨ahead.before, fun message log member => (ahead.kept message log member).trans grows⟩

theorem hand (ahead : traffic.WrittenAhead) {messages : List Outbound}
    (logged : ∀ message, Outbound.order message ∈ messages →
      Logged traffic.gateway.log message) : (traffic.hand messages).WrittenAhead := by
  refine ⟨fun message log member => ?_, fun message log member => ?_⟩
  · rcases List.mem_append.mp member with old | new
    · exact ahead.before message log old
    · obtain ⟨outbound, inMessages, equal⟩ := List.mem_map.mp new
      cases equal
      exact logged message inMessages
  · rcases List.mem_append.mp member with old | new
    · exact ahead.kept message log old
    · obtain ⟨outbound, _, equal⟩ := List.mem_map.mp new
      cases equal
      exact List.prefix_rfl

/-- `send_order` hands over what it has just logged. -/
theorem sendOrder (ahead : traffic.WrittenAhead) (args : FIXGateway.SendArgs) (now : Nat)
    (sessionFound : Bool) :
    (Traffic.hand { traffic with
        gateway := (traffic.gateway.sendOrder arith args now sessionFound).gateway }
      ((traffic.gateway.sendOrder arith args now sessionFound).handed.toList.map
        .order)).WrittenAhead := by
  rcases FIXGateway.sendOrder_cases arith traffic.gateway args now sessionFound with
    ⟨_, blocked⟩ | ⟨_, _, stopped⟩ | ⟨log, _, _, events, sent⟩
  · rw [blocked]
    exact (ahead.of_grows List.prefix_rfl).hand fun message member => (nomatch member)
  · rw [stopped]
    have grows : traffic.gateway.log.events <+: traffic.gateway.nextOrderId.2.log.events :=
      List.prefix_rfl
    exact (ahead.of_grows grows).hand fun message member => (nomatch member)
  · rw [sent]
    have grows : traffic.gateway.log.events <+: log.events := ⟨_, events.symm⟩
    refine (ahead.of_grows grows).hand fun message member => ?_
    obtain ⟨_, inHanded, equal⟩ := List.mem_map.mp member
    cases inHanded with
    | head =>
        cases equal
        have last : EventLog.stamp traffic.gateway.log.size now
            (traffic.gateway.newOrderEvent args) ∈ log.events := by simp [events]
        exact ⟨_, last, rfl, rfl, rfl, rfl, rfl⟩
    | tail _ rest => cases rest

/-- Every call keeps the orders written ahead, if `flatten` sends nothing. -/
theorem step (ahead : traffic.WrittenAhead) {after : Traffic}
    (call : Step arith AllFlat traffic after) : after.WrittenAhead := by
  cases call with
  | sendOrder args now sessionFound => exact ahead.sendOrder args now sessionFound
  | cancelAll idPrefix sessionFound =>
      refine ahead.hand fun message member => ?_
      obtain ⟨attempt, _, equal⟩ := List.mem_map.mp member
      cases equal
  | flatten idPrefix sessionFound permitted =>
      rw [flatten_of_allFlat permitted]
      exact ahead.hand fun message member => (nomatch member)
  | fromApp message now returned =>
      rcases FIXGateway.fromApp_cases returned with rfl | ⟨_, event, _, _, booked⟩
      · exact ahead
      · obtain ⟨log, _, events, rfl⟩ := FIXGateway.book_eq_ok_iff.mp booked
        exact ahead.of_grows ⟨_, events.symm⟩
  | onLogon => exact ahead.of_grows List.prefix_rfl
  | onLogout => exact ahead.of_grows List.prefix_rfl
  | markToMarket sym mktPriceFp => exact ahead.of_grows List.prefix_rfl

end WrittenAhead

/-- In every run that calls `flatten` only when all positions are flat, each order handed
to the session was in the log before, and the log accounts for all of them ever after. -/
theorem write_ahead {arith : Arithmetic} {limits : RiskLimits} {log : EventLog}
    {traffic : Traffic}
    (run : Relation.ReflTransGen (Step arith AllFlat) (start arith limits log) traffic) :
    ∀ message logThen, (Outbound.order message, logThen) ∈ traffic.handed →
      Logged logThen message ∧ Logged traffic.gateway.log message := by
  have ahead : traffic.WrittenAhead := by
    induction run with
    | refl => exact ⟨fun _ _ member => (nomatch member), fun _ _ member => (nomatch member)⟩
    | tail _ call ih => exact ih.step call
  intro message logThen member
  have logged := ahead.before message logThen member
  exact ⟨logged, logged.mono (ahead.kept _ _ member)⟩

/-- A session that logs on and sends one order. -/
def oneOrder : Traffic :=
  hand ⟨(FIXGateway.connectedGateway.sendOrder .wrapping FIXGateway.sampleArgs 0 true).gateway, []⟩
    ((FIXGateway.connectedGateway.sendOrder .wrapping FIXGateway.sampleArgs 0
      true).handed.toList.map .order)

theorem run_oneOrder (mayFlatten : PositionTracker → Prop) :
    Relation.ReflTransGen (Step .wrapping mayFlatten) (start .wrapping {} EventLog.empty)
      oneOrder :=
  (Relation.ReflTransGen.single .onLogon).tail (.sendOrder FIXGateway.sampleArgs 0 true)

/-- The order that session sent. -/
def firstOrder : NewOrderSingle :=
  MessageTranslator.toNewOrderSingle
    (FIXGateway.connectedGateway.newOrderEvent FIXGateway.sampleArgs)

/-- The first order of a session is in the log, and stays there when `flatten` is called
before anything was filled. -/
theorem write_ahead_before_fills : Logged oneOrder.gateway.log firstOrder := by
  have run := (run_oneOrder AllFlat).tail
    (.flatten (ascii "FL") (fun _ => true) fun position member => (nomatch member))
  exact (write_ahead run firstOrder oneOrder.gateway.log List.mem_cons_self).2

/-- `flatten` sends an order that the log does not know. -/
theorem flatten_order_not_logged :
    ¬∀ (limits : RiskLimits) (log : EventLog) (traffic : Traffic),
      Relation.ReflTransGen (Step .wrapping fun _ => True) (start .wrapping limits log) traffic →
      ∀ message logThen, (Outbound.order message, logThen) ∈ traffic.handed →
        Logged logThen message := by
  intro always
  have survived : oneOrder.gateway.fromApp .wrapping
      (.executionReport (FIXGateway.filledReport (ascii "ORD0"))) 0 =
      .returned (oneOrder.gateway.delivered (FIXGateway.filledReport (ascii "ORD0"))) := rfl
  have filled := (run_oneOrder fun _ => True).tail (.fromApp _ 0 survived)
  have flattened := filled.tail (.flatten (ascii "FL") (fun _ => true) trivial)
  have logged := always {} EventLog.empty _ flattened _ _
    (List.mem_cons_of_mem _ List.mem_cons_self)
  revert logged
  decide +kernel

end Traffic

end Hft.Gateway
