import Hft.Gateway.Session

/-!
# Two threads, one log

The strategy thread runs `send_order`, the I/O thread runs `onMessage`, and each call
touches the log and the projections in several steps. The log fixes one order of the
events; the order manager may see two of them the other way round. What makes up for it
is that the two events are about different ids, so applying them commutes
(`OrderManager.applyEvent_comm`), and `Settles` carries the account of what is logged but
not yet applied through every step.
-/

namespace Hft

open Logical

/-- The fields of an order that the log determines: everything but the sequence stamps. The
live manager is handed each event as it was before `append` stamped it. -/
def Order.logged (order : Order) : Order := { order with openedSeq := 0, lastSeq := 0 }

/-- The fields of a position that the log determines: everything but the stamp and the
mark. -/
def Position.logged (position : Position) : Position :=
  { position with unrealizedPnl := 0, lastPrice := 0, lastUpdatedSeq := 0 }

namespace OrderManager

theorem key_eq_of_logged_eq (order order' : Order) (same : order.logged = order'.logged) :
    order.key = order'.key := by
  simp only [Order.logged, Order.mk.injEq] at same
  rw [Order.key, same.1, Order.key]

/-- A handler's writes see neither the stamps of the slot nor those of the event. -/
theorem logged_rewrite (arith : Arithmetic) (sequence now : Nat) (event : OrderEvent)
    (order order' : Order) (same : order.logged = order'.logged) :
    (rewrite arith (EventLog.stamp sequence now event) order).logged =
      (rewrite arith event order').logged := by
  obtain ⟨id, symbol, limitPrice, avgFillPrice, _, _, original, filled, state, side⟩ := order
  obtain ⟨id', symbol', limitPrice', avgFillPrice', _, _, original', filled', state', side'⟩ :=
    order'
  simp only [Order.logged, Order.mk.injEq] at same
  obtain ⟨rfl, rfl, rfl, rfl, _, _, rfl, rfl, rfl, rfl⟩ := same
  unfold rewrite
  simp only [EventLog.stamp]
  cases event.type <;> rfl

/-- Managers in agreement stay so when one is handed an event and the other its logged
copy. -/
theorem agree_applyEvent {replayed live : OrderManager} (agree : replayed.Agree Order.logged live)
    (arith : Arithmetic) (sequence now : Nat) (event : OrderEvent) :
    (replayed.applyEvent arith (EventLog.stamp sequence now event)).Agree Order.logged
      (live.applyEvent arith event) := by
  by_cases isNew : event.type = .newOrder
  · have isNew' : (EventLog.stamp sequence now event).type = .newOrder := isNew
    rw [applyEvent_of_newOrder arith live isNew, applyEvent_of_newOrder arith replayed isNew']
    unfold handleNew
    refine agree.upsert key_eq_of_logged_eq ?_ (fun order order' same => ?_) _ _
    · rfl
    · simp only [Order.logged, Order.mk.injEq] at same
      simp [Order.logged, Order.opened, same.1, EventLog.stamp]
  · have notNew' : (EventLog.stamp sequence now event).type ≠ .newOrder := isNew
    rw [applyEvent_of_ne_newOrder arith live isNew,
      applyEvent_of_ne_newOrder arith replayed notNew']
    exact agree.update key_eq_of_logged_eq (logged_rewrite arith sequence now event) _ _

/-- A new order and a report about another id may be applied in either order, also when
the new order needs a slot and when it finds none. -/
theorem applyEvent_comm (arith : Arithmetic) (orders : OrderManager) {placed reported : OrderEvent}
    (isNew : placed.type = .newOrder) (notNew : reported.type ≠ .newOrder)
    (differs : reported.orderId.string ≠ placed.orderId.string) :
    (orders.applyEvent arith reported).applyEvent arith placed =
      (orders.applyEvent arith placed).applyEvent arith reported := by
  rw [applyEvent_of_newOrder arith _ isNew, applyEvent_of_newOrder arith _ isNew,
    applyEvent_of_ne_newOrder arith _ notNew, applyEvent_of_ne_newOrder arith _ notNew]
  exact SlotTable.update_upsert_comm (by rwa [key_opened_strncpy]) _ _

end OrderManager

namespace PositionTracker

theorem key_eq_of_logged_eq (position position' : Position)
    (same : position.logged = position'.logged) : position.key = position'.key := by
  simp only [Position.logged, Position.mk.injEq] at same
  rw [Position.key, same.1, Position.key]

/-- A fill reads neither the mark nor the stamps. -/
theorem logged_applyFill (arith : Arithmetic) (sequence now : Nat) (event : OrderEvent)
    (position position' : Position) (same : position.logged = position'.logged) :
    (position.applyFill arith (EventLog.stamp sequence now event)).logged =
      (position'.applyFill arith event).logged := by
  obtain ⟨symbol, netQty, avgEntryPrice, realizedPnl, _, bought, sold, _, _⟩ := position
  obtain ⟨symbol', netQty', avgEntryPrice', realizedPnl', _, bought', sold', _, _⟩ := position'
  simp only [Position.logged, Position.mk.injEq] at same
  obtain ⟨rfl, rfl, rfl, rfl, _, rfl, rfl, _, _⟩ := same
  by_cases buys : event.side = .buy
  · by_cases long : 0 ≤ netQty
    · simp only [Position.applyFill, EventLog.stamp, Position.applyBuy, Position.bookBuy,
        if_pos buys, if_pos long]
      rfl
    · simp only [Position.applyFill, EventLog.stamp, Position.applyBuy, Position.bookBuy,
        if_pos buys, if_neg long]
      rfl
  · by_cases long : 0 < netQty
    · simp only [Position.applyFill, EventLog.stamp, Position.applySell, Position.bookSell,
        if_neg buys, if_pos long]
      rfl
    · simp only [Position.applyFill, EventLog.stamp, Position.applySell, Position.bookSell,
        if_neg buys, if_neg long]
      rfl

theorem agree_applyEvent {replayed live : PositionTracker}
    (agree : replayed.Agree Position.logged live) (arith : Arithmetic) (sequence now : Nat)
    (event : OrderEvent) :
    (replayed.applyEvent arith (EventLog.stamp sequence now event)).Agree Position.logged
      (live.applyEvent arith event) := by
  by_cases isFill : event.isFill = true
  · have isFill' : (EventLog.stamp sequence now event).isFill = true := isFill
    rw [applyEvent, applyEvent, if_pos isFill, if_pos isFill']
    exact agree.upsert key_eq_of_logged_eq (logged_applyFill arith sequence now event _ _ rfl)
      (logged_applyFill arith sequence now event) _ _
  · rw [Bool.not_eq_true] at isFill
    have notFill' : (EventLog.stamp sequence now event).isFill = false := isFill
    rw [applyEvent_of_not_fill arith _ isFill, applyEvent_of_not_fill arith replayed notFill']
    exact agree

/-- A mark is not logged and changes nothing that is. -/
theorem agree_markToMarket {replayed live : PositionTracker}
    (agree : replayed.Agree Position.logged live) (arith : Arithmetic) (sym : StringView)
    (mktPriceFp : Int) :
    replayed.Agree Position.logged (live.markToMarket arith sym mktPriceFp) := by
  have unseen : ∀ position, (Position.mark arith mktPriceFp position).logged = position.logged := by
    intro position
    unfold Position.mark
    split <;> rfl
  refine Eq.trans agree ?_
  unfold markToMarket SlotTable.update
  rw [List.map_map]
  apply List.map_congr_left
  intro position _
  simp only [Function.comp_apply]
  split
  · exact (unseen position).symm
  · rfl

end PositionTracker

namespace Gateway

/-! ## The threads -/

/-- Where the strategy thread is in `send_order`. -/
inductive Sending where
  | idle
  | numbered (event : OrderEvent)
  | logged (event : OrderEvent)

/-- Where the I/O thread is in `onMessage`. -/
inductive Receiving where
  | idle
  | translated (event : OrderEvent)
  | logged (event : OrderEvent)
  | tracked (event : OrderEvent)

/-- The event of a call in progress. -/
def Sending.inFlight : Sending → List OrderEvent
  | .idle => []
  | .numbered event => [event]
  | .logged event => [event]

/-- What is in the log but not yet in the order manager. -/
def Sending.unapplied : Sending → List OrderEvent
  | .idle => []
  | .numbered _ => []
  | .logged event => [event]

/-- The event of a call in progress. -/
def Receiving.inFlight : Receiving → List OrderEvent
  | .idle => []
  | .translated event => [event]
  | .logged event => [event]
  | .tracked event => [event]

/-- What is in the log but not yet in the tracker. -/
def Receiving.untracked : Receiving → List OrderEvent
  | .idle => []
  | .translated _ => []
  | .logged event => [event]
  | .tracked _ => []

/-- What is in the log but not yet in the order manager. -/
def Receiving.unapplied : Receiving → List OrderEvent
  | .idle => []
  | .translated _ => []
  | .logged event => [event]
  | .tracked event => [event]

/-- A running process: the shared components and the two threads. -/
structure Process where
  gateway : FIXGateway
  sending : Sending
  receiving : Receiving

namespace Process

/-- No call is in progress. -/
def Quiet (process : Process) : Prop := process.sending = .idle ∧ process.receiving = .idle

/-- Both components rebuilt from the log, whatever they held before. -/
def rebuilt (arith : Arithmetic) (gateway : FIXGateway) : Process where
  gateway := { gateway with
    tracker := gateway.tracker.replayFrom arith gateway.log
    orders := gateway.orders.replayFrom arith gateway.log }
  sending := .idle
  receiving := .idle

/-- One call to `append` or `apply_event`, or one of the steps around them. The verdict of
the risk check is left open: the check reads both projections while the other thread
writes them. A call for an id overlaps no report about that id. A full log throws out of
`send_order`; out of `onMessage` it ends the process, which leaves only `restart`. -/
inductive Step (arith : Arithmetic) (process : Process) : Process → Prop where
  | sendStart (args : FIXGateway.SendArgs) (idle : process.sending = .idle)
      (connected : process.gateway.connected = true)
      (apart : ∀ reported ∈ process.receiving.inFlight,
        reported.orderId.string ≠ (process.gateway.newOrderEvent args).orderId.string) :
      Step arith process { process with
        gateway := process.gateway.nextOrderId.2
        sending := .numbered (process.gateway.newOrderEvent args) }
  | sendAppend {event : OrderEvent} {log : EventLog} {sequence : Nat} (now : Nat)
      (numbered : process.sending = .numbered event)
      (appended : process.gateway.log.append now event = .ok (log, sequence)) :
      Step arith process { process with
        gateway := { process.gateway with log := log }
        sending := .logged event }
  | sendThrow {event : OrderEvent} {thrown : Thrown} (now : Nat)
      (numbered : process.sending = .numbered event)
      (full : process.gateway.log.append now event = .error thrown) :
      Step arith process { process with sending := .idle }
  | sendApply {event : OrderEvent} (logged : process.sending = .logged event) :
      Step arith process { process with
        gateway := { process.gateway with
          orders := process.gateway.orders.applyEvent arith event }
        sending := .idle }
  | receive {event : OrderEvent} (report : ExecutionReport) (idle : process.receiving = .idle)
      (translated : MessageTranslator.fromExecutionReport arith report = .ok (some event))
      (apart : ∀ placed ∈ process.sending.inFlight,
        event.orderId.string ≠ placed.orderId.string) :
      Step arith process { process with receiving := .translated event }
  | receiveAppend {event : OrderEvent} {log : EventLog} {sequence : Nat} (now : Nat)
      (translated : process.receiving = .translated event)
      (appended : process.gateway.log.append now event = .ok (log, sequence)) :
      Step arith process { process with
        gateway := { process.gateway with log := log }
        receiving := .logged event }
  | receiveTrack {event : OrderEvent} (logged : process.receiving = .logged event) :
      Step arith process { process with
        gateway := { process.gateway with
          tracker := process.gateway.tracker.applyEvent arith event }
        receiving := .tracked event }
  | receiveApply {event : OrderEvent} (tracked : process.receiving = .tracked event) :
      Step arith process { process with
        gateway := { process.gateway with
          orders := process.gateway.orders.applyEvent arith event }
        receiving := .idle }
  | markToMarket (sym : StringView) (mktPriceFp : Int) :
      Step arith process { process with
        gateway := { process.gateway with
          tracker := process.gateway.tracker.markToMarket arith sym mktPriceFp } }
  | onLogon : Step arith process { process with gateway := process.gateway.onLogon }
  | onLogout : Step arith process { process with gateway := process.gateway.onLogout }
  | restart (limits : RiskLimits) :
      Step arith process ⟨FIXGateway.start arith limits process.gateway.log, .idle, .idle⟩

/-- The order manager once both threads have applied what they logged. -/
def settledOrders (arith : Arithmetic) (process : Process) : OrderManager :=
  (process.receiving.unapplied ++ process.sending.unapplied).foldl
    (OrderManager.applyEvent arith) process.gateway.orders

/-- The tracker once the I/O thread has applied what it logged. -/
def settledTracker (arith : Arithmetic) (process : Process) : PositionTracker :=
  process.receiving.untracked.foldl (PositionTracker.applyEvent arith) process.gateway.tracker

/-- What the log replays to is what the projections will be once nothing is in progress;
the two calls in progress are about different ids. -/
structure Settles (arith : Arithmetic) (process : Process) : Prop where
  tracker : (PositionTracker.initial.replayFrom arith process.gateway.log).Agree Position.logged
    (process.settledTracker arith)
  orders : (OrderManager.initial.replayFrom arith process.gateway.log).Agree Order.logged
    (process.settledOrders arith)
  placedNew : ∀ placed ∈ process.sending.inFlight, placed.type = .newOrder
  reportedNotNew : ∀ reported ∈ process.receiving.inFlight, reported.type ≠ .newOrder
  apart : ∀ placed ∈ process.sending.inFlight, ∀ reported ∈ process.receiving.inFlight,
    reported.orderId.string ≠ placed.orderId.string

variable {arith : Arithmetic} {process after : Process}

theorem settles_rebuilt (arith : Arithmetic) (gateway : FIXGateway) :
    (rebuilt arith gateway).Settles arith where
  tracker := rfl
  orders := rfl
  placedNew placed member := by cases member
  reportedNotNew reported member := by cases member
  apart placed member := by cases member

namespace Settles

/-- The strategy thread logs its order: the replay and the settled manager both take it
last. -/
theorem sendAppend (settles : process.Settles arith) {event : OrderEvent} {log : EventLog}
    {sequence now : Nat} (numbered : process.sending = .numbered event)
    (appended : process.gateway.log.append now event = .ok (log, sequence)) :
    Settles arith { process with
      gateway := { process.gateway with log := log }
      sending := .logged event } := by
  obtain ⟨gateway, sending, receiving⟩ := process
  cases numbered
  have events := (EventLog.append_eq_ok_iff.mp appended).2.1
  have isNew : event.type = .newOrder := settles.placedNew event List.mem_cons_self
  have notFill : event.isFill = false := by simp [OrderEvent.isFill, isNew]
  refine ⟨?_, ?_, settles.placedNew, settles.reportedNotNew, settles.apart⟩
  · rw [PositionTracker.replayFrom, EventLog.replay_append events,
      PositionTracker.applyEvent_of_not_fill arith _ (by exact notFill)]
    exact settles.tracker
  · rw [OrderManager.replayFrom, EventLog.replay_append events]
    have settled : settledOrders arith
        ⟨{ gateway with log := log }, .logged event, receiving⟩ =
        (settledOrders arith ⟨gateway, .numbered event, receiving⟩).applyEvent arith event := by
      simp [settledOrders, Sending.unapplied]
    rw [settled]
    exact OrderManager.agree_applyEvent settles.orders arith _ _ event

/-- The strategy thread applies its order, possibly before a report logged earlier. -/
theorem sendApply (settles : process.Settles arith) {event : OrderEvent}
    (logged : process.sending = .logged event) :
    Settles arith { process with
      gateway := { process.gateway with
        orders := process.gateway.orders.applyEvent arith event }
      sending := .idle } := by
  obtain ⟨gateway, sending, receiving⟩ := process
  cases logged
  refine ⟨settles.tracker, ?_, fun placed member => (by cases member), settles.reportedNotNew,
    fun placed member => (by cases member)⟩
  have settled : settledOrders arith
      ⟨{ gateway with orders := gateway.orders.applyEvent arith event }, .idle, receiving⟩ =
      settledOrders arith ⟨gateway, .logged event, receiving⟩ := by
    have isNew := settles.placedNew event List.mem_cons_self
    cases receiving with
    | idle => rfl
    | translated reported => rfl
    | logged reported =>
        exact (OrderManager.applyEvent_comm arith gateway.orders isNew
          (settles.reportedNotNew reported List.mem_cons_self)
          (settles.apart event List.mem_cons_self reported List.mem_cons_self)).symm
    | tracked reported =>
        exact (OrderManager.applyEvent_comm arith gateway.orders isNew
          (settles.reportedNotNew reported List.mem_cons_self)
          (settles.apart event List.mem_cons_self reported List.mem_cons_self)).symm
  rw [settled]
  exact settles.orders

/-- The I/O thread logs a report, possibly behind an order that is not applied yet. -/
theorem receiveAppend (settles : process.Settles arith) {event : OrderEvent} {log : EventLog}
    {sequence now : Nat} (translated : process.receiving = .translated event)
    (appended : process.gateway.log.append now event = .ok (log, sequence)) :
    Settles arith { process with
      gateway := { process.gateway with log := log }
      receiving := .logged event } := by
  obtain ⟨gateway, sending, receiving⟩ := process
  cases translated
  have events := (EventLog.append_eq_ok_iff.mp appended).2.1
  refine ⟨?_, ?_, settles.placedNew, settles.reportedNotNew, settles.apart⟩
  · rw [PositionTracker.replayFrom, EventLog.replay_append events]
    exact PositionTracker.agree_applyEvent settles.tracker arith _ _ event
  · rw [OrderManager.replayFrom, EventLog.replay_append events]
    have settled : settledOrders arith ⟨{ gateway with log := log }, sending, .logged event⟩ =
        (settledOrders arith ⟨gateway, sending, .translated event⟩).applyEvent arith event := by
      cases sending with
      | idle => rfl
      | numbered placed => rfl
      | logged placed =>
          exact OrderManager.applyEvent_comm arith gateway.orders
            (settles.placedNew placed List.mem_cons_self)
            (settles.reportedNotNew event List.mem_cons_self)
            (settles.apart placed List.mem_cons_self event List.mem_cons_self)
    rw [settled]
    exact OrderManager.agree_applyEvent settles.orders arith _ _ event

/-- A mark may fall between the two halves of a report. -/
theorem markToMarket (settles : process.Settles arith) (sym : StringView) (mktPriceFp : Int) :
    Settles arith { process with
      gateway := { process.gateway with
        tracker := process.gateway.tracker.markToMarket arith sym mktPriceFp } } := by
  obtain ⟨gateway, sending, receiving⟩ := process
  refine ⟨?_, settles.orders, settles.placedNew, settles.reportedNotNew, settles.apart⟩
  have marked : gateway.tracker.Agree Position.logged
      (gateway.tracker.markToMarket arith sym mktPriceFp) :=
    PositionTracker.agree_markToMarket rfl arith sym mktPriceFp
  cases receiving with
  | idle => exact Eq.trans settles.tracker marked
  | translated event => exact Eq.trans settles.tracker marked
  | logged event =>
      exact Eq.trans settles.tracker
        (PositionTracker.agree_applyEvent marked arith event.sequence event.timestampNs event)
  | tracked event => exact Eq.trans settles.tracker marked

/-- Every step keeps the account of what is logged but not yet applied. -/
theorem step (settles : process.Settles arith) (taken : Step arith process after) :
    after.Settles arith := by
  cases taken with
  | sendStart args idle connected apart =>
      obtain ⟨gateway, sending, receiving⟩ := process
      cases idle
      refine ⟨settles.tracker, settles.orders, ?_, settles.reportedNotNew, ?_⟩
      · intro placed member
        cases List.mem_singleton.mp member
        rfl
      · intro placed member
        cases List.mem_singleton.mp member
        exact apart
  | sendAppend now numbered appended => exact settles.sendAppend numbered appended
  | sendThrow now numbered full =>
      obtain ⟨gateway, sending, receiving⟩ := process
      cases numbered
      exact ⟨settles.tracker, settles.orders, fun placed member => (by cases member),
        settles.reportedNotNew, fun placed member => (by cases member)⟩
  | sendApply logged => exact settles.sendApply logged
  | @receive event report idle translated apart =>
      obtain ⟨gateway, sending, receiving⟩ := process
      cases idle
      refine ⟨settles.tracker, settles.orders, settles.placedNew, ?_, ?_⟩
      · intro reported member
        cases List.mem_singleton.mp member
        exact MessageTranslator.type_ne_newOrder translated
      · intro placed inFlight reported member
        cases List.mem_singleton.mp member
        exact apart placed inFlight
  | receiveAppend now translated appended => exact settles.receiveAppend translated appended
  | receiveTrack logged =>
      obtain ⟨gateway, sending, receiving⟩ := process
      cases logged
      exact ⟨settles.tracker, settles.orders, settles.placedNew, settles.reportedNotNew,
        settles.apart⟩
  | receiveApply tracked =>
      obtain ⟨gateway, sending, receiving⟩ := process
      cases tracked
      exact ⟨settles.tracker, settles.orders, settles.placedNew,
        fun reported member => (by cases member),
        fun placed _ reported member => (by cases member)⟩
  | markToMarket sym mktPriceFp => exact settles.markToMarket sym mktPriceFp
  | onLogon =>
      exact ⟨settles.tracker, settles.orders, settles.placedNew, settles.reportedNotNew,
        settles.apart⟩
  | onLogout =>
      exact ⟨settles.tracker, settles.orders, settles.placedNew, settles.reportedNotNew,
        settles.apart⟩
  | restart limits =>
      exact settles_rebuilt arith (FIXGateway.start arith limits process.gateway.log)

theorem run {gateway : FIXGateway}
    (run : Relation.ReflTransGen (Step arith) (rebuilt arith gateway) process) :
    process.Settles arith := by
  induction run with
  | refl => exact settles_rebuilt arith gateway
  | tail _ taken ih => exact ih.step taken

end Settles

/-- Whenever no call is in progress, the live projections are what a replay of the log
would build, on every field that the log determines: however the two threads interleaved,
and across restarts. -/
theorem live_eq_replay {gateway : FIXGateway}
    (run : Relation.ReflTransGen (Step arith) (rebuilt arith gateway) process)
    (quiet : process.Quiet) :
    process.gateway.tracker.slots.map Position.logged =
      (process.gateway.tracker.replayFrom arith process.gateway.log).slots.map Position.logged ∧
    process.gateway.orders.slots.map Order.logged =
      (process.gateway.orders.replayFrom arith process.gateway.log).slots.map Order.logged := by
  have settles := Settles.run run
  obtain ⟨components, sending, receiving⟩ := process
  obtain ⟨rfl, rfl⟩ : sending = .idle ∧ receiving = .idle := quiet
  exact ⟨settles.tracker.symm, settles.orders.symm⟩

/-- The log says fill, then second order; the manager saw the second order first. -/
def reordered : Process :=
  let placed :=
    (FIXGateway.connectedGateway.sendOrder .wrapping FIXGateway.sampleArgs 0 true).gateway
  let filled := MessageTranslator.reportedEvent .wrapping
    (FIXGateway.filledReport (ascii "ORD0")) .fullFill (ascii "AAPL") (ascii "ORD0") '1'
  let second := placed.newOrderEvent FIXGateway.sampleArgs
  { gateway := { placed.nextOrderId.2 with
      log := ⟨placed.log.events ++ [EventLog.stamp 1 0 filled] ++ [EventLog.stamp 2 0 second],
        by decide⟩
      tracker := placed.tracker.applyEvent .wrapping filled
      orders := (placed.orders.applyEvent .wrapping second).applyEvent .wrapping filled }
    sending := .idle
    receiving := .idle }

theorem run_reordered :
    Relation.ReflTransGen (Step .wrapping) (rebuilt .wrapping FIXGateway.connectedGateway)
      reordered := by
  have first : Step .wrapping (rebuilt .wrapping FIXGateway.connectedGateway) _ :=
    .sendStart FIXGateway.sampleArgs rfl rfl (fun _ member => by cases member)
  have firstLogged := Relation.ReflTransGen.single first |>.tail (.sendAppend 0 rfl rfl)
  have placed := firstLogged.tail (.sendApply rfl)
  have second := placed.tail (.sendStart FIXGateway.sampleArgs rfl rfl
    (fun _ member => by cases member))
  have reported := second.tail (.receive (FIXGateway.filledReport (ascii "ORD0")) rfl rfl
    (fun other member => by cases List.mem_singleton.mp member; decide))
  have reportLogged := reported.tail (.receiveAppend 0 rfl rfl)
  have secondLogged := reportLogged.tail (.sendAppend 0 rfl rfl)
  have secondApplied := secondLogged.tail (.sendApply rfl)
  exact (secondApplied.tail (.receiveTrack rfl)).tail (.receiveApply rfl)

theorem live_eq_replay_reordered :
    reordered.gateway.tracker.slots.map Position.logged =
      (reordered.gateway.tracker.replayFrom .wrapping reordered.gateway.log).slots.map
        Position.logged ∧
    reordered.gateway.orders.slots.map Order.logged =
      (reordered.gateway.orders.replayFrom .wrapping reordered.gateway.log).slots.map
        Order.logged :=
  live_eq_replay run_reordered ⟨rfl, rfl⟩

/-! ## Whole calls are runs of the threads -/

/-- A process between calls. -/
def between (gateway : FIXGateway) : Process := ⟨gateway, .idle, .idle⟩

/-- Each call of a session is a run of one thread while the other is idle. -/
theorem run_of_sessionStep {gateway result : FIXGateway}
    (step : FIXGateway.SessionStep arith gateway result) :
    Relation.ReflTransGen (Step arith) (between gateway) (between result) := by
  cases step with
  | sendOrder args now sessionFound =>
      obtain ⟨_, blocked⟩ | ⟨accepted, full, stopped⟩ | ⟨log, accepted, room, events, sent⟩ :=
        FIXGateway.sendOrder_cases arith gateway args now sessionFound
      · rw [blocked]
      · rw [stopped]
        have started : Step arith (between gateway)
            ⟨gateway.nextOrderId.2, .numbered (gateway.newOrderEvent args), .idle⟩ :=
          .sendStart args rfl accepted.1 (fun _ member => by cases member)
        exact .tail (.single started) (.sendThrow now rfl (EventLog.append_of_full full now _))
      · rw [sent]
        have started : Step arith (between gateway)
            ⟨gateway.nextOrderId.2, .numbered (gateway.newOrderEvent args), .idle⟩ :=
          .sendStart args rfl accepted.1 (fun _ member => by cases member)
        have appended : gateway.nextOrderId.2.log.append now (gateway.newOrderEvent args) =
            .ok (log, gateway.log.size) := EventLog.append_eq_ok_iff.mpr ⟨room, events, rfl⟩
        exact .tail (.tail (.single started) (.sendAppend now rfl appended)) (.sendApply rfl)
  | fromApp message now returned =>
      obtain rfl | ⟨report, event, _, translated, booked⟩ := FIXGateway.fromApp_cases returned
      · exact .refl
      · obtain ⟨log, room, events, rfl⟩ := FIXGateway.book_eq_ok_iff.mp booked
        have appended : gateway.log.append now event = .ok (log, gateway.log.size) :=
          EventLog.append_eq_ok_iff.mpr ⟨room, events, rfl⟩
        have received : Step arith (between gateway) ⟨gateway, .idle, .translated event⟩ :=
          .receive report rfl translated (fun _ member => by cases member)
        exact .tail (.tail (.tail (.single received) (.receiveAppend now rfl appended))
          (.receiveTrack rfl)) (.receiveApply rfl)
  | onLogon => exact .single .onLogon
  | onLogout => exact .single .onLogout
  | markToMarket sym mktPriceFp => exact .single (.markToMarket sym mktPriceFp)

end Process

end Gateway

end Hft
