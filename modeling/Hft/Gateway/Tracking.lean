import Hft.Gateway.Identity

/-!
# What a returned order id stands for

A `send_order` call that returns an id has logged the order and handed it to the
session. Whether the order manager tracks it is another matter: the table may be full
(`accepted_order_tracked_iff`), and after a restart the id may belong to an order that
is already there (`restart_keeps_orders_iff`).
-/

namespace Hft.Gateway

open Logical

namespace FIXGateway

variable {arith : Arithmetic} {limits : RiskLimits} {log : EventLog} {gateway : FIXGateway}
  {args : SendArgs} {now : Nat} {sessionFound : Bool} {oid : List UInt8}

/-- A returned id is the counter's, and its order was applied and handed to the session. -/
theorem sendOrder_of_returned
    (returned : (gateway.sendOrder arith args now sessionFound).result = .ok oid)
    (assigned : oid ≠ []) :
    gateway.log.size < maxEvents ∧ oid = orderId gateway.orderCounter ∧
      (gateway.sendOrder arith args now sessionFound).gateway.orders =
        gateway.orders.applyEvent arith (gateway.newOrderEvent args) ∧
      (gateway.sendOrder arith args now sessionFound).handed =
        some (MessageTranslator.toNewOrderSingle (gateway.newOrderEvent args)) := by
  obtain ⟨_, blocked⟩ | ⟨_, _, stopped⟩ | ⟨log, _, room, _, sent⟩ :=
    sendOrder_cases arith gateway args now sessionFound
  · rw [blocked] at returned
    cases returned
    exact absurd rfl assigned
  · rw [stopped] at returned
    cases returned
  · rw [sent] at returned ⊢
    cases sessionFound with
    | false => cases returned
    | true =>
        cases returned
        exact ⟨room, rfl, rfl, rfl⟩

/-- Numbers below 100,000 fit into the 8 bytes in full. -/
theorem orderKey_eq_orderId {number : Nat} (bound : number < 100000) :
    orderKey number = orderId number := by
  have digits : (toDecimal number).length ≤ 5 := (length_toDecimal_le_iff (by decide)).mpr bound
  rw [orderKey_eq, List.take_of_length_le digits, orderId]

theorem orderId_injective : Function.Injective orderId := by
  intro left right equal
  exact toDecimal_injective (List.append_cancel_left equal)

/-! ## Orders of earlier sessions -/

/-- After a restart, a `send_order` call that returns an id respects the orders already
tracked exactly when this session has numbered at least as many orders as the replay
brought back: until then each new order takes over the slot of an old one. -/
theorem restart_keeps_orders_iff (produced : Produced arith log)
    (run : InSession arith limits log gateway)
    (returned : (gateway.sendOrder arith args now sessionFound).result = .ok oid)
    (assigned : oid ≠ []) :
    ((∀ order ∈ (OrderManager.initial.replayFrom arith log).slots, order.orderId.string ≠ oid) ∧
      gateway.orders.slots <+:
        (gateway.sendOrder arith args now sessionFound).gateway.orders.slots) ↔
    (OrderManager.initial.replayFrom arith log).orderCount ≤ gateway.orderCounter := by
  have numbered := run.numbered produced.gapless
  have atStart := numbered_start produced.gapless limits
  have bounded : (OrderManager.initial.replayFrom arith log).orderCount ≤ maxOrders :=
    SlotTable.bounded _
  simp only [maxOrders] at bounded
  obtain ⟨room, rfl, orders, _⟩ := sendOrder_of_returned returned assigned
  constructor
  · rintro ⟨unused, _⟩
    by_contra reused
    rw [Nat.not_le] at reused
    have present :
        orderKey gateway.orderCounter ∈ (OrderManager.initial.replayFrom arith log).keys :=
      (atStart.mem_keys_iff _).mpr reused
    obtain ⟨order, member, key⟩ := List.mem_map.mp present
    apply unused order member
    rw [← orderKey_eq_orderId (by omega)]
    exact key
  · intro caughtUp
    have isNew : gateway.orders.find? (gateway.newOrderEvent args).orderId.string = none := by
      rw [SlotTable.find?_eq_none_iff_keys, orderId_newOrderEvent, numbered.mem_keys_iff,
        numbered.count room]
      omega
    refine ⟨?_, ?_⟩
    · intro order member same
      have key : order.key ∈ (OrderManager.initial.replayFrom arith log).keys :=
        List.mem_map_of_mem member
      rw [produced.gapless] at key
      obtain ⟨index, below, equal⟩ := List.mem_map.mp key
      have bound := List.mem_range.mp below
      have index_eq : index = gateway.orderCounter := by
        apply orderId_injective
        rw [← orderKey_eq_orderId (by omega), equal]
        exact same
      omega
    · rw [orders, OrderManager.applyEvent_of_newOrder arith _ rfl]
      apply SlotTable.prefix_upsert_of_absent
      rwa [OrderManager.key_opened_strncpy]

theorem inSession_connectedGateway : InSession .wrapping {} EventLog.empty connectedGateway :=
  .tail .refl .onLogon

/-- The log of a session that sent one order. -/
def oneOrderLog : EventLog := (connectedGateway.sendOrder .wrapping sampleArgs 0 true).gateway.log

theorem produced_oneOrderLog : Produced .wrapping oneOrderLog :=
  .session .empty (.tail inSession_connectedGateway (.sendOrder sampleArgs 0 true))

/-- A session on that log that has sent one order as well. -/
def caughtUpGateway : FIXGateway :=
  ((start .wrapping {} oneOrderLog).onLogon.sendOrder .wrapping sampleArgs 0 true).gateway

theorem inSession_caughtUpGateway : InSession .wrapping {} oneOrderLog caughtUpGateway :=
  .tail (.tail .refl .onLogon) (.sendOrder sampleArgs 0 true)

/-- Its second order takes over nothing. -/
theorem restart_keeps_orders_caught_up :
    (∀ order ∈ (OrderManager.initial.replayFrom .wrapping oneOrderLog).slots,
      order.orderId.string ≠ ascii "ORD1") ∧
    caughtUpGateway.orders.slots <+:
      (caughtUpGateway.sendOrder .wrapping sampleArgs 0 true).gateway.orders.slots :=
  (restart_keeps_orders_iff produced_oneOrderLog inSession_caughtUpGateway
    (show _ = Except.ok (ascii "ORD1") by decide +kernel) (by decide)).mpr (by decide +kernel)

/-- A restart on that log numbers its first order `ORD0` again, and `ORD0` is open. -/
theorem restart_reuses_order_id :
    ¬∀ (limits : RiskLimits) (log : EventLog) (gateway : FIXGateway) (args : SendArgs) (now : Nat)
      (sessionFound : Bool) (oid : List UInt8),
      Produced .wrapping log → InSession .wrapping limits log gateway →
      (gateway.sendOrder .wrapping args now sessionFound).result = .ok oid → oid ≠ [] →
      (∀ order ∈ (OrderManager.initial.replayFrom .wrapping log).slots,
        order.orderId.string ≠ oid) ∧
      gateway.orders.slots <+:
        (gateway.sendOrder .wrapping args now sessionFound).gateway.orders.slots := by
  intro always
  have restarted : InSession .wrapping {} oneOrderLog (start .wrapping {} oneOrderLog).onLogon :=
    .tail .refl .onLogon
  have unused := (always {} oneOrderLog (start .wrapping {} oneOrderLog).onLogon sampleArgs 0 true
    (ascii "ORD0") produced_oneOrderLog restarted rfl (by decide)).1
  revert unused
  decide

/-! ## Orders of this session -/

/-- The manager holds the order a call asked for, pending and untouched, under the id
the call returned, and both scans over open orders see it. -/
def Tracked (arith : Arithmetic) (before after : FIXGateway) (args : SendArgs)
    (oid : List UInt8) : Prop :=
  ∃ order, after.orders.find (StringView.ofList oid) = some order ∧
    order.state = .pending ∧ order.symbol.string = args.symbol.chars.take 8 ∧
    order.side = args.side ∧ order.originalQty = args.qty ∧ order.limitPrice = args.priceFp ∧
    order.filledQty = 0 ∧ order ∈ after.orders.openOrders ∧
    after.orders.openExposure arith args.symbol =
      arith.int32 (before.orders.openExposure arith args.symbol +
        if args.side = .buy then order.remainingQty arith
        else arith.int32 (-order.remainingQty arith))

/-- An 8-byte field takes a symbol over as it is: no NUL among its first 8 characters,
and a NUL behind a view that has fewer. -/
def FitsField (symbol : StringView) : Prop :=
  (∀ index < min 8 symbol.size, symbol.data index ≠ 0) ∧
    (symbol.size < 8 → symbol.data symbol.size = 0)

/-- The slot a recorded order is given. -/
def recordedOrder (gateway : FIXGateway) (args : SendArgs) : Order :=
  Order.opened (strncpy (gateway.newOrderEvent args).orderIdView.data 8)
    (gateway.newOrderEvent args)

theorem symbol_recordedOrder (gateway : FIXGateway) (args : SendArgs) :
    (gateway.recordedOrder args).symbol.string = fieldKey args.symbol := by
  have copied := symbol_newOrderEvent gateway args
  rw [← copied]
  exact string_strncpy _ 8

/-- With a slot to spare, the recorded order takes the next one. -/
theorem slots_recorded
    (isNew : gateway.orders.find? (gateway.newOrderEvent args).orderId.string = none)
    (slot : gateway.orders.orderCount < maxOrders) :
    (gateway.orders.applyEvent arith (gateway.newOrderEvent args)).slots =
      gateway.orders.slots ++ [gateway.recordedOrder args] := by
  rw [OrderManager.applyEvent_of_newOrder arith _ rfl]
  exact OrderManager.slots_handleNew isNew slot

/-- A recorded order is found under its id exactly when there was a slot to spare. -/
theorem find?_recorded
    (isNew : gateway.orders.find? (gateway.newOrderEvent args).orderId.string = none) :
    (gateway.orders.applyEvent arith (gateway.newOrderEvent args)).find?
        (gateway.newOrderEvent args).orderId.string =
      if gateway.orders.orderCount < maxOrders then some (gateway.recordedOrder args)
      else none := by
  split
  · rename_i slot
    apply SlotTable.find?_eq_some_iff.mpr
    rw [slots_recorded isNew slot]
    exact ⟨by simp, OrderManager.key_opened_strncpy _⟩
  · rename_i full
    rw [OrderManager.applyEvent_of_newOrder arith _ rfl, OrderManager.handleNew,
      SlotTable.upsert_of_full _ (by rwa [OrderManager.key_opened_strncpy]) (Nat.not_lt.mp full)]
    exact isNew

variable (arith) in
/-- The same, asked with the id that `send_order` returns. -/
theorem find_returned
    (isNew : gateway.orders.find? (gateway.newOrderEvent args).orderId.string = none) :
    (gateway.orders.applyEvent arith (gateway.newOrderEvent args)).find
        (StringView.ofList (orderId gateway.orderCounter)) =
      if gateway.orders.orderCount < maxOrders then some (gateway.recordedOrder args)
      else none := by
  rw [OrderManager.find_eq_find?, ← find?_recorded isNew, orderId_newOrderEvent]
  rfl

variable (arith) in
/-- The recorded order adds its quantity to its symbol's exposure. -/
theorem openExposure_recorded
    (isNew : gateway.orders.find? (gateway.newOrderEvent args).orderId.string = none)
    (slot : gateway.orders.orderCount < maxOrders) :
    (gateway.orders.applyEvent arith (gateway.newOrderEvent args)).openExposure arith args.symbol =
      arith.int32 (gateway.orders.openExposure arith args.symbol +
        if args.side = .buy then (gateway.recordedOrder args).remainingQty arith
        else arith.int32 (-(gateway.recordedOrder args).remainingQty arith)) := by
  have onSymbol : strncmp (gateway.recordedOrder args).symbol.pointer args.symbol.data 8 = 0 :=
    strncmp_eq_zero_iff.mpr (symbol_recordedOrder gateway args)
  have isOpen : (gateway.recordedOrder args).isOpen = true := rfl
  rw [OrderManager.openExposure, slots_recorded isNew slot, List.foldl_append]
  simp only [List.foldl_cons, List.foldl_nil, OrderManager.addExposure, isOpen, onSymbol]
  rfl

/-- The id of the next order is not in the table of a session that began empty. -/
theorem isNew_newOrderEvent (run : InSession arith limits EventLog.empty gateway)
    (room : gateway.log.size < maxEvents) (args : SendArgs) :
    gateway.orders.find? (gateway.newOrderEvent args).orderId.string = none := by
  have numbered := run.numbered (Produced.gapless .empty)
  have count := numbered.count room
  have replayedNone : (OrderManager.initial.replayFrom arith EventLog.empty).orderCount = 0 := rfl
  rw [SlotTable.find?_eq_none_iff_keys, orderId_newOrderEvent, numbered.mem_keys_iff]
  omega

/-- In a session that began with an empty log, the order behind a returned id is tracked
exactly when a slot was left for it and the symbol fits its field. The 513th order, and
every one after it, is sent and logged but unknown to the manager. -/
theorem accepted_order_tracked_iff (run : InSession arith limits EventLog.empty gateway)
    (returned : (gateway.sendOrder arith args now sessionFound).result = .ok oid)
    (assigned : oid ≠ []) :
    Tracked arith gateway (gateway.sendOrder arith args now sessionFound).gateway args oid ↔
      gateway.orders.orderCount < maxOrders ∧ FitsField args.symbol := by
  obtain ⟨room, rfl, orders, _⟩ := sendOrder_of_returned returned assigned
  have isNew := isNew_newOrderEvent run room args
  have fits : fieldKey args.symbol = args.symbol.chars.take 8 ↔ FitsField args.symbol :=
    text_eq_take_chars_iff
  unfold Tracked
  rw [orders, find_returned arith isNew, ← fits]
  constructor
  · rintro ⟨order, found, _, symbol, _⟩
    split at found
    · rename_i slot
      cases found
      exact ⟨slot, by rw [← symbol, symbol_recordedOrder]⟩
    · cases found
  · rintro ⟨slot, symbol⟩
    refine ⟨gateway.recordedOrder args, if_pos slot, rfl, ?_, rfl, rfl, rfl, rfl, ?_,
      openExposure_recorded arith isNew slot⟩
    · rw [symbol_recordedOrder, symbol]
    · apply List.mem_filter.mpr
      rw [slots_recorded isNew slot]
      exact ⟨by simp, rfl⟩

theorem inSession_tradedGateway : InSession .wrapping {} EventLog.empty tradedGateway :=
  .tail (.tail (.tail inSession_connectedGateway (.sendOrder { sampleArgs with qty := 100 } 0 true))
    (.fromApp (.executionReport { tradedReport (ascii "ORD0") .buy 60 with execType := some '1' }) 0
      rfl)) (.sendOrder sampleArgs 0 true)

/-- With 60 shares held and 41 on order, a third order is tracked. -/
theorem accepted_order_tracked_third :
    Tracked .wrapping tradedGateway
      (tradedGateway.sendOrder .wrapping sampleArgs 0 true).gateway sampleArgs (ascii "ORD2") :=
  (accepted_order_tracked_iff inSession_tradedGateway
    (show _ = Except.ok (ascii "ORD2") by decide +kernel) (by decide)).mpr
    ⟨by decide +kernel, by unfold FitsField; decide⟩

/-- A session that has done nothing but send `count` sample orders. -/
structure Filled (count : Nat) (gateway : FIXGateway) : Prop where
  run : InSession .wrapping {} EventLog.empty gateway
  connected : gateway.connected = true
  limits : gateway.limits = {}
  tracker : gateway.tracker = PositionTracker.initial
  logged : gateway.log.size = count
  tracked : gateway.orders.orderCount = count
  exposure : gateway.orders.openExposure .wrapping sampleArgs.symbol = count

/-- Up to the table's size, the default limits let one more sample order through. -/
theorem Filled.accepts {count : Nat} {gateway : FIXGateway} (filled : gateway.Filled count)
    (few : count ≤ maxOrders) : gateway.Accepts .wrapping sampleArgs := by
  refine ⟨filled.connected, ?_⟩
  simp only [maxOrders] at few
  have held : Arithmetic.wrapping.int64 (gateway.tracker.netQty sampleArgs.symbol +
      gateway.orders.openExposure .wrapping sampleArgs.symbol) = count := by
    rw [filled.exposure, filled.tracker]
    have flat : PositionTracker.initial.netQty sampleArgs.symbol = 0 := by decide
    rw [flat, zero_add]
    exact Arithmetic.wrapping.int64_exact (inRange_64 (by omega) (by omega))
  have signed : RiskChecker.signedQty .wrapping sampleArgs.side sampleArgs.qty = 1 := by decide
  have projected : Arithmetic.wrapping.int64 ((count : Int) + 1) = count + 1 :=
    Arithmetic.wrapping.int64_exact (inRange_64 (by omega) (by omega))
  have lower : Arithmetic.wrapping.int64 (-50000) = -50000 := by decide
  rw [RiskChecker.check_eq_pass_iff, RiskChecker.checkProjected_eq_pass_iff, held, signed,
    projected, filled.limits, filled.tracker]
  refine ⟨by decide, by decide, ⟨?_, ?_⟩, ?_, by decide⟩
  · change ((count : Int) + 1) ≤ 50000
    omega
  · change Arithmetic.wrapping.int64 (-50000) ≤ (count : Int) + 1
    omega
  · omega

theorem Filled.next {count : Nat} {gateway : FIXGateway} (filled : gateway.Filled count)
    (few : count < maxOrders) :
    (gateway.sendOrder .wrapping sampleArgs 0 true).gateway.Filled (count + 1) := by
  have accepted := filled.accepts (Nat.le_of_lt few)
  have roomInLog : gateway.log.size < maxEvents := by
    rw [filled.logged]
    simp only [maxOrders, maxEvents] at few ⊢
    omega
  have isNew := isNew_newOrderEvent filled.run roomInLog sampleArgs
  have slot : gateway.orders.orderCount < maxOrders := filled.tracked ▸ few
  have exposure := openExposure_recorded .wrapping isNew slot
  have next := filled.run.tail (.sendOrder sampleArgs 0 true)
  obtain ⟨refused, _⟩ | ⟨_, full, _⟩ | ⟨log, _, _, events, sent⟩ :=
    sendOrder_cases .wrapping gateway sampleArgs 0 true
  · exact absurd accepted refused
  · exact absurd roomInLog (Nat.not_lt.mpr full)
  · rw [sent] at next ⊢
    refine ⟨next, filled.connected, filled.limits, filled.tracker, ?_, ?_, ?_⟩
    · simp [EventLog.size, events, ← filled.logged]
    · change List.length _ = _
      rw [slots_recorded isNew slot]
      simp [← filled.tracked, OrderManager.orderCount]
    · refine exposure.trans ?_
      have one : (gateway.recordedOrder sampleArgs).remainingQty .wrapping = 1 := by
        change Arithmetic.wrapping.int32 (1 - 0) = 1
        decide
      rw [filled.exposure, one]
      simp only [maxOrders] at few
      exact Arithmetic.wrapping.int32_exact (inRange_32 (by simp [sampleArgs]; omega)
        (by simp [sampleArgs]; omega))

theorem exists_filled {count : Nat} (few : count ≤ maxOrders) :
    ∃ gateway : FIXGateway, gateway.Filled count := by
  induction count with
  | zero => exact ⟨connectedGateway, inSession_connectedGateway, rfl, rfl, rfl, rfl, rfl, rfl⟩
  | succ count ih =>
      obtain ⟨gateway, filled⟩ := ih (Nat.le_of_succ_le few)
      exact ⟨_, filled.next few⟩

/-- The 513th sample order returns an id that the manager cannot find. -/
theorem accepted_order_lost :
    ¬∀ (limits : RiskLimits) (gateway : FIXGateway) (args : SendArgs) (now : Nat)
      (sessionFound : Bool) (oid : List UInt8), InSession .wrapping limits EventLog.empty gateway →
      (gateway.sendOrder .wrapping args now sessionFound).result = .ok oid → oid ≠ [] →
      Tracked .wrapping gateway (gateway.sendOrder .wrapping args now sessionFound).gateway args
        oid := by
  intro always
  obtain ⟨gateway, filled⟩ := exists_filled (le_refl maxOrders)
  have roomInLog : gateway.log.size < maxEvents := by
    rw [filled.logged]
    decide
  have isNew := isNew_newOrderEvent filled.run roomInLog sampleArgs
  obtain ⟨refused, _⟩ | ⟨_, full, _⟩ | ⟨log, _, _, _, sent⟩ :=
    sendOrder_cases .wrapping gateway sampleArgs 0 true
  · exact absurd (filled.accepts (le_refl _)) refused
  · exact absurd roomInLog (Nat.not_lt.mpr full)
  · have assigned : orderId gateway.orderCounter ≠ [] := by simp [orderId, ascii]
    obtain ⟨order, found, _⟩ := always {} gateway sampleArgs 0 true (orderId gateway.orderCounter)
      filled.run (by rw [sent]; rfl) assigned
    rw [sent] at found
    have lost := find_returned .wrapping isNew
    rw [if_neg (by rw [filled.tracked]; exact lt_irrefl _)] at lost
    rw [lost] at found
    cases found

end FIXGateway

end Hft.Gateway
