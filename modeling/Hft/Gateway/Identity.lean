import Hft.Gateway.Session

/-!
# Order ids over a session and across restarts

The gateway numbers its orders from 0 in every process, while the ids live on in the
log. `Numbered` is the relation between the counter, the order table and the log that
every call keeps: the table holds the ids `ORD0`, `ORD1`, … without a gap, and as long
as the log takes events the counter has caught up with the table or with what the
restart replayed. Whether the next order gets a slot of its own, takes over the slot of
an earlier order, or is dropped is read off from that relation.
-/

namespace Hft.Gateway

open Logical

namespace FIXGateway

/-- The 8 bytes of an order id that a slot or an event keeps. -/
def orderKey (number : Nat) : List UInt8 := fieldKey (StringView.ofList (orderId number))

/-- Five digits of the number fit behind the prefix. -/
theorem orderKey_eq (number : Nat) :
    orderKey number = ascii "ORD" ++ (toDecimal number).take 5 := by
  have clean : ∀ byte ∈ orderId number, byte ≠ 0 := by
    intro byte member
    obtain letter | digit := List.mem_append.mp member
    · have letters : ∀ byte ∈ ascii "ORD", byte ≠ 0 := by decide +kernel
      exact letters byte letter
    · exact toDecimal_ne_zero digit
  have cut : orderKey number = (orderId number).take 8 := text_ofList clean 8
  rw [cut, orderId, List.take_append]
  have short : (ascii "ORD").length = 3 := by decide
  rw [short, List.take_of_length_le (by omega)]

/-- Numbers below 10,000 share their 8 bytes with no other number. From 100,000 on the
last digits are cut off. -/
theorem orderKey_eq_iff {small number : Nat} (bound : small < 10000) :
    orderKey small = orderKey number ↔ small = number := by
  constructor
  · intro equal
    rw [orderKey_eq, orderKey_eq, List.append_cancel_left_eq] at equal
    have fewDigits : (toDecimal small).length ≤ 4 :=
      (length_toDecimal_le_iff (by decide)).mpr bound
    rw [List.take_of_length_le (by omega)] at equal
    by_cases whole : (toDecimal number).length ≤ 5
    · rw [List.take_of_length_le whole] at equal
      exact toDecimal_injective equal
    · have lengths := congrArg List.length equal
      rw [List.length_take] at lengths
      omega
  · rintro rfl
    rfl

/-- The counter, the order table and the log of a session that replayed `replayed`
orders. -/
structure Numbered (arith : Arithmetic) (replayed : Nat) (gateway : FIXGateway) : Prop where
  logged : (OrderManager.initial.replayFrom arith gateway.log).keys = gateway.orders.keys
  keys : gateway.orders.keys = (List.range gateway.orders.orderCount).map orderKey
  count : gateway.log.size < maxEvents →
    gateway.orders.orderCount = min maxOrders (max replayed gateway.orderCounter)
  counter : gateway.log.size < maxEvents → gateway.orderCounter ≤ gateway.log.size
  replayedLe : replayed ≤ maxOrders

theorem orderCount_eq_length_keys (orders : OrderManager) :
    orders.orderCount = orders.keys.length := (SlotTable.length_keys orders).symm

/-- The stamp that `append` puts on an event does not change which ids have slots. -/
theorem keys_applyEvent_stamp (arith : Arithmetic) {left right : OrderManager}
    (same : left.keys = right.keys) (sequence now : Nat) (event : OrderEvent) :
    (left.applyEvent arith (EventLog.stamp sequence now event)).keys =
      (right.applyEvent arith event).keys := by
  rw [OrderManager.keys_applyEvent, OrderManager.keys_applyEvent, orderCount_eq_length_keys,
    orderCount_eq_length_keys, same]
  rfl

@[simp] theorem orderId_newOrderEvent (gateway : FIXGateway) (args : SendArgs) :
    (gateway.newOrderEvent args).orderId.string = orderKey gateway.orderCounter :=
  string_strncpy _ 8

namespace Numbered

variable {arith : Arithmetic} {replayed : Nat} {gateway : FIXGateway}

/-- The ids in the table are the numbers below the count. -/
theorem mem_keys_iff (numbered : gateway.Numbered arith replayed) (number : Nat) :
    orderKey number ∈ gateway.orders.keys ↔ number < gateway.orders.orderCount := by
  have bounded : gateway.orders.orderCount ≤ maxOrders := gateway.orders.bounded
  rw [numbered.keys, List.mem_map]
  constructor
  · rintro ⟨index, member, same⟩
    have below := List.mem_range.mp member
    rw [orderKey_eq_iff (by simp only [maxOrders] at bounded; omega)] at same
    omega
  · exact fun below => ⟨number, List.mem_range.mpr below, rfl⟩

/-- A recorded order appends its id to the table, or finds it there, or finds the table
full. -/
theorem keys_recorded (numbered : gateway.Numbered arith replayed)
    (room : gateway.log.size < maxEvents) (args : SendArgs) :
    (gateway.orders.applyEvent arith (gateway.newOrderEvent args)).keys =
      (List.range (min maxOrders (max replayed (gateway.orderCounter + 1)))).map orderKey := by
  have count := numbered.count room
  have replayedLe := numbered.replayedLe
  rw [OrderManager.keys_applyEvent, orderId_newOrderEvent]
  split
  · rename_i created
    obtain ⟨_, isNew, free⟩ := created
    rw [numbered.mem_keys_iff] at isNew
    have grown : min maxOrders (max replayed (gateway.orderCounter + 1)) =
        gateway.orders.orderCount + 1 := by omega
    have number : gateway.orders.orderCount = gateway.orderCounter := by omega
    rw [grown, List.range_succ, List.map_append, List.map_singleton, numbered.keys, number]
  · rename_i kept
    have notCreated : gateway.orderCounter < gateway.orders.orderCount ∨
        maxOrders ≤ gateway.orders.orderCount := by
      by_contra neither
      rw [not_or, ← numbered.mem_keys_iff] at neither
      exact kept ⟨rfl, neither.1, Nat.lt_of_not_le neither.2⟩
    have same : min maxOrders (max replayed (gateway.orderCounter + 1)) =
        gateway.orders.orderCount := by omega
    rw [same, numbered.keys]

theorem recorded (numbered : gateway.Numbered arith replayed)
    (room : gateway.log.size < maxEvents) {args : SendArgs} {now : Nat} {log : EventLog}
    (events : log.events = gateway.log.events ++
      [EventLog.stamp gateway.log.size now (gateway.newOrderEvent args)]) :
    Numbered arith replayed { gateway.nextOrderId.2 with
      log := log
      orders := gateway.orders.applyEvent arith (gateway.newOrderEvent args) } := by
  have keys := numbered.keys_recorded room args
  have size : log.size = gateway.log.size + 1 := by simp [EventLog.size, events]
  have counter := numbered.counter room
  have bumped : gateway.nextOrderId.2.orderCounter = gateway.orderCounter + 1 := by
    simp only [nextOrderId]
    apply Nat.mod_eq_of_lt
    simp only [maxEvents] at room
    omega
  have count : (gateway.orders.applyEvent arith (gateway.newOrderEvent args)).orderCount =
      min maxOrders (max replayed (gateway.orderCounter + 1)) := by
    rw [orderCount_eq_length_keys, keys, List.length_map, List.length_range]
  refine ⟨?_, ?_, ?_, ?_, numbered.replayedLe⟩
  · rw [OrderManager.replayFrom, EventLog.replay_append events]
    exact keys_applyEvent_stamp arith numbered.logged _ _ _
  · rw [count]
    exact keys
  · intro _
    rw [bumped]
    exact count
  · intro _
    rw [bumped, size]
    omega

/-- Booking a report leaves the numbering alone. -/
theorem booked (numbered : gateway.Numbered arith replayed) {event : OrderEvent} {now : Nat}
    {after : FIXGateway} (notNew : event.type ≠ .newOrder)
    (ok : gateway.book arith now event = .ok after) : after.Numbered arith replayed := by
  obtain ⟨log, room, events, rfl⟩ := book_eq_ok_iff.mp ok
  have sameKeys : (gateway.orders.applyEvent arith event).keys = gateway.orders.keys := by
    rw [OrderManager.keys_applyEvent, if_neg (by simp [notNew])]
  have sameCount : (gateway.orders.applyEvent arith event).orderCount =
      gateway.orders.orderCount := by
    rw [orderCount_eq_length_keys, orderCount_eq_length_keys, sameKeys]
  have size : log.size = gateway.log.size + 1 := by simp [EventLog.size, events]
  refine ⟨?_, ?_, ?_, ?_, numbered.replayedLe⟩
  · rw [OrderManager.replayFrom, EventLog.replay_append events]
    exact keys_applyEvent_stamp arith numbered.logged _ _ _
  · rw [sameKeys, sameCount]
    exact numbered.keys
  · intro _
    rw [sameCount]
    exact numbered.count room
  · intro _
    rw [size]
    exact (numbered.counter room).trans (Nat.le_succ _)

/-- Every call keeps the numbering. -/
theorem step (numbered : gateway.Numbered arith replayed) {after : FIXGateway}
    (call : SessionStep arith gateway after) : after.Numbered arith replayed := by
  cases call with
  | sendOrder args now sessionFound =>
      obtain ⟨_, blocked⟩ | ⟨_, full, stopped⟩ | ⟨log, _, room, events, sent⟩ :=
        sendOrder_cases arith gateway args now sessionFound
      · rw [blocked]
        exact numbered
      · rw [stopped]
        exact ⟨numbered.logged, numbered.keys, fun room => absurd room (Nat.not_lt.mpr full),
          fun room => absurd room (Nat.not_lt.mpr full), numbered.replayedLe⟩
      · rw [sent]
        exact numbered.recorded room events
  | fromApp message now returned =>
      obtain rfl | ⟨report, event, _, translated, ok⟩ := fromApp_cases returned
      · exact numbered
      · exact numbered.booked (MessageTranslator.type_ne_newOrder translated) ok
  | onLogon =>
      exact ⟨numbered.logged, numbered.keys, numbered.count, numbered.counter, numbered.replayedLe⟩
  | onLogout =>
      exact ⟨numbered.logged, numbered.keys, numbered.count, numbered.counter, numbered.replayedLe⟩
  | markToMarket sym mktPriceFp =>
      exact ⟨numbered.logged, numbered.keys, numbered.count, numbered.counter, numbered.replayedLe⟩

end Numbered

/-- A log whose replay holds gaplessly numbered ids. -/
def Gapless (arith : Arithmetic) (log : EventLog) : Prop :=
  (OrderManager.initial.replayFrom arith log).keys =
    (List.range (OrderManager.initial.replayFrom arith log).orderCount).map orderKey

/-- A session on a gapless log starts numbered. -/
theorem numbered_start {arith : Arithmetic} {log : EventLog} (gapless : Gapless arith log)
    (limits : RiskLimits) :
    (start arith limits log).Numbered arith
      (OrderManager.initial.replayFrom arith log).orderCount := by
  have bounded : (OrderManager.initial.replayFrom arith log).orderCount ≤ maxOrders :=
    SlotTable.bounded _
  refine ⟨rfl, gapless, ?_, ?_, bounded⟩
  · intro _
    change (OrderManager.initial.replayFrom arith log).orderCount = _
    simp only [start]
    omega
  · intro _
    exact Nat.zero_le _

theorem InSession.numbered {arith : Arithmetic} {limits : RiskLimits} {log : EventLog}
    {gateway : FIXGateway} (gapless : Gapless arith log)
    (run : InSession arith limits log gateway) :
    gateway.Numbered arith (OrderManager.initial.replayFrom arith log).orderCount := by
  induction run with
  | refl => exact numbered_start gapless limits
  | tail _ call ih => exact ih.step call

/-- Whatever sessions left behind, the log numbers its orders without a gap. -/
theorem Produced.gapless {arith : Arithmetic} {log : EventLog} (produced : Produced arith log) :
    Gapless arith log := by
  induction produced with
  | empty => rfl
  | @session limits log gateway earlier run ih =>
      have numbered := run.numbered ih
      unfold Gapless
      rw [orderCount_eq_length_keys, numbered.logged, ← orderCount_eq_length_keys]
      exact numbered.keys

end FIXGateway

end Hft.Gateway
