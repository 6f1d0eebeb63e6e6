import Hft.Gateway.Killswitch
import Hft.Gateway.Session
import Hft.OrderManager.Lifecycle

/-!
# What a confirmed cancel closes

`cancel_all` gives each request an id of its own and names the order in `OrigClOrdID`. The
exchange's confirmation carries both ids, and the translator takes the request's. Whether
the order is closed then depends on whether its id happens to be one that `cancel_all`
made up: `confirmed_cancels_close_iff`.
-/

namespace Hft.Gateway

open Logical

namespace Killswitch

/-- The requests of `cancel_all` when the session is found every time. -/
def requests (orders : OrderManager) (idPrefix : List UInt8) : List OrderCancelRequest :=
  (cancelAll orders idPrefix fun _ => true).map Attempt.message

/-- The ids that `cancel_all` makes up for `count` requests. -/
def cancelIds (idPrefix : List UInt8) (count : Nat) : List (List UInt8) :=
  (List.range count).map fun index => idPrefix ++ toDecimal (index + 1)

/-- One request per open order, numbered from 1. -/
theorem map_clOrdId_requests (orders : OrderManager) (idPrefix : List UInt8) :
    (requests orders idPrefix).map OrderCancelRequest.clOrdId =
      cancelIds idPrefix orders.openOrderCount := by
  rw [requests, List.map_map, cancelAll_eq_mapIdx]
  refine map_mapIdx_eq_range ?_ _
  intro index order
  rfl

end Killswitch

/-- The exchange's confirmation of a cancel request. -/
def confirm (request : OrderCancelRequest) : ExecutionReport where
  execType := some '4'
  clOrdId := some request.clOrdId
  origClOrdId := some request.origClOrdId
  symbol := some request.symbol
  side := some request.side

/-- The event booked for a confirmation. -/
def confirmedEvent (arith : Arithmetic) (request : OrderCancelRequest) : OrderEvent :=
  MessageTranslator.reportedEvent arith (confirm request) .cancel request.symbol request.clOrdId
    request.side

theorem fromExecutionReport_confirm (arith : Arithmetic) (request : OrderCancelRequest) :
    MessageTranslator.fromExecutionReport arith (confirm request) =
      .ok (some (confirmedEvent arith request)) := rfl

/-- A cancel goes to the order with the request's own id. -/
theorem orderId_confirmedEvent (arith : Arithmetic) (request : OrderCancelRequest) :
    (confirmedEvent arith request).orderId.string =
      fieldKey (StringView.ofList request.clOrdId) := by
  rw [confirmedEvent, MessageTranslator.orderId_reportedEvent, string_strncpy]
  rfl

theorem type_confirmedEvent (arith : Arithmetic) (request : OrderCancelRequest) :
    (confirmedEvent arith request).type = .cancel := by
  rw [confirmedEvent, MessageTranslator.type_reportedEvent]

end Hft.Gateway

namespace Hft.OrderManager

open Logical

/-- Cancels close the orders they name and leave every other state as it was. -/
theorem find?_applyAll_cancels (arith : Arithmetic) {orders : OrderManager}
    {events : List OrderEvent} (cancels : ∀ event ∈ events, event.type = .cancel)
    {oid : List UInt8} {order : Order} (found : orders.find? oid = some order) :
    ∃ order', (orders.applyAll arith events).find? oid = some order' ∧
      order'.state =
        if oid ∈ events.map (fun event => event.orderId.string) then .cancelled
        else order.state := by
  induction events generalizing orders order with
  | nil => exact ⟨order, found, by simp⟩
  | cons event rest ih =>
      have isCancel := cancels event List.mem_cons_self
      have restCancels : ∀ other ∈ rest, other.type = .cancel :=
        fun other member => cancels other (List.mem_cons_of_mem _ member)
      by_cases addressed : oid = event.orderId.string
      · subst addressed
        obtain ⟨order', found', state⟩ :=
          ih restCancels (find?_applyEvent_self arith orders found)
        refine ⟨order', found', ?_⟩
        have closed : (rewrite arith event order).state = .cancelled := by
          simp [rewrite, isCancel, Order.cancel]
        rw [state, closed, ite_self, if_pos (by simp)]
      · obtain ⟨order', found', state⟩ := ih restCancels
          ((find?_applyEvent_of_ne arith orders addressed).trans found)
        refine ⟨order', found', ?_⟩
        rw [state]
        simp [addressed]

theorem keys_applyAll_cancels (arith : Arithmetic) (orders : OrderManager)
    {events : List OrderEvent} (cancels : ∀ event ∈ events, event.type = .cancel) :
    (orders.applyAll arith events).keys = orders.keys := by
  induction events generalizing orders with
  | nil => rfl
  | cons event rest ih =>
      have isCancel := cancels event List.mem_cons_self
      change ((orders.applyEvent arith event).applyAll arith rest).keys = _
      rw [ih _ fun other member => cancels other (List.mem_cons_of_mem _ member),
        keys_applyEvent, if_neg (by simp [isCancel])]

/-- Once the cancels are in, no order is open exactly when every open order was named. -/
theorem closed_by_cancels_iff (arith : Arithmetic) (orders : OrderManager)
    {events : List OrderEvent} (cancels : ∀ event ∈ events, event.type = .cancel) :
    ((∀ order ∈ orders.openOrders, ∃ order',
        (orders.applyAll arith events).find? order.key = some order' ∧ order'.state = .cancelled) ∧
      (orders.applyAll arith events).openOrderCount = 0) ↔
    ∀ order ∈ orders.openOrders, order.key ∈ events.map fun event => event.orderId.string := by
  constructor
  · rintro ⟨closed, _⟩ order isOpen
    by_contra unnamed
    obtain ⟨member, open'⟩ := List.mem_filter.mp isOpen
    have found := SlotTable.find?_eq_some_iff.mpr ⟨member, rfl⟩
    obtain ⟨order', found', state⟩ := find?_applyAll_cancels arith cancels found
    obtain ⟨same, sameFound, cancelled⟩ := closed order isOpen
    rw [found'] at sameFound
    cases sameFound
    rw [if_neg unnamed] at state
    simp [Order.isOpen, ← state, cancelled] at open'
  · intro named
    refine ⟨fun order isOpen => ?_, ?_⟩
    · obtain ⟨member, _⟩ := List.mem_filter.mp isOpen
      have found := SlotTable.find?_eq_some_iff.mpr ⟨member, rfl⟩
      obtain ⟨order', found', state⟩ := find?_applyAll_cancels arith cancels found
      exact ⟨order', found', by rw [state, if_pos (named order isOpen)]⟩
    · apply List.length_eq_zero_iff.mpr
      apply List.filter_eq_nil_iff.mpr
      intro after member open'
      -- Every slot was there before, so its state is known from the slot it had.
      have present : after.key ∈ orders.keys := by
        rw [← keys_applyAll_cancels arith orders cancels]
        exact List.mem_map_of_mem member
      obtain ⟨before, beforeMem, sameKey⟩ := List.mem_map.mp present
      have found := SlotTable.find?_eq_some_iff.mpr ⟨beforeMem, sameKey⟩
      obtain ⟨order', found', state⟩ := find?_applyAll_cancels arith cancels found
      rw [SlotTable.find?_eq_some_iff.mpr ⟨member, rfl⟩] at found'
      cases found'
      split at state
      · simp [Order.isOpen, state] at open'
      · rename_i unnamed
        apply unnamed
        rw [← sameKey]
        apply named before
        exact List.mem_filter.mpr ⟨beforeMem, by simpa [Order.isOpen, state] using open'⟩

end Hft.OrderManager

namespace Hft.Gateway.FIXGateway

open Logical Killswitch

/-- `onMessage`, report after report, until one of them ends the process. -/
def receiveAll (arith : Arithmetic) (gateway : FIXGateway) :
    List (ExecutionReport × Nat) → Outcome
  | [] => .returned gateway
  | (report, now) :: rest =>
      match gateway.onMessage arith report now with
      | .terminated => .terminated
      | .returned after => after.receiveAll arith rest

/-- All confirmations are processed exactly when the log has room for them, and the order
manager then holds their cancels. -/
theorem receiveAll_confirm_iff (arith : Arithmetic) (gateway : FIXGateway)
    (deliveries : List (OrderCancelRequest × Nat)) (holds : OrderManager → Prop) :
    (∃ after, gateway.receiveAll arith
        (deliveries.map fun delivery => (confirm delivery.1, delivery.2)) = .returned after ∧
      holds after.orders) ↔
    gateway.log.size + deliveries.length ≤ maxEvents ∧
      holds (gateway.orders.applyAll arith
        (deliveries.map fun delivery => confirmedEvent arith delivery.1)) := by
  induction deliveries generalizing gateway with
  | nil =>
      constructor
      · rintro ⟨after, returned, held⟩
        cases returned
        exact ⟨gateway.log.bounded, held⟩
      · rintro ⟨_, held⟩
        exact ⟨gateway, rfl, held⟩
  | cons delivery rest ih =>
      obtain ⟨request, now⟩ := delivery
      simp only [List.map_cons, receiveAll, onMessage, fromExecutionReport_confirm]
      cases booked : gateway.book arith now (confirmedEvent arith request) with
      | error thrown =>
          have full : ¬gateway.log.size < maxEvents := by
            intro room
            obtain ⟨after, succeeds⟩ :=
              exists_book_of_room arith room now (confirmedEvent arith request)
            rw [booked] at succeeds
            cases succeeds
          constructor
          · rintro ⟨after, returned, _⟩
            cases returned
          · rintro ⟨room, _⟩
            simp only [List.length_cons] at room
            omega
      | ok next =>
          obtain ⟨log, room, events, rfl⟩ := book_eq_ok_iff.mp booked
          have grown : log.size = gateway.log.size + 1 := by simp [EventLog.size, events]
          refine (ih _).trans (and_congr ?_ Iff.rfl)
          simp only [List.length_cons]
          omega

/-- The confirmations of a `cancel_all`, in any order, leave no order open exactly when
each open order's 8-byte id is one that `cancel_all` made up and the log has room for
the confirmations. -/
theorem confirmed_cancels_close_iff (arith : Arithmetic) (gateway : FIXGateway)
    (idPrefix : List UInt8) {deliveries : List (OrderCancelRequest × Nat)}
    (anyOrder : (deliveries.map Prod.fst).Perm (requests gateway.orders idPrefix)) :
    (∃ after, gateway.receiveAll arith
        (deliveries.map fun delivery => (confirm delivery.1, delivery.2)) = .returned after ∧
      (∀ order ∈ gateway.orders.openOrders, ∃ order',
        after.orders.find? order.key = some order' ∧ order'.state = .cancelled) ∧
      after.orders.openOrderCount = 0) ↔
    (∀ order ∈ gateway.orders.openOrders,
      ∃ index < gateway.orders.openOrderCount, order.key =
        fieldKey (StringView.ofList (idPrefix ++ toDecimal (index + 1)))) ∧
    gateway.log.size + gateway.orders.openOrderCount ≤ maxEvents := by
  have idsPerm := anyOrder.map OrderCancelRequest.clOrdId
  rw [map_clOrdId_requests] at idsPerm
  have count : deliveries.length = gateway.orders.openOrderCount := by
    have lengths := idsPerm.length_eq
    simpa [cancelIds] using lengths
  have cancels : ∀ event ∈ deliveries.map (fun delivery => confirmedEvent arith delivery.1),
      event.type = .cancel := by
    intro event member
    obtain ⟨delivery, _, rfl⟩ := List.mem_map.mp member
    exact type_confirmedEvent arith delivery.1
  have named : ∀ oid : List UInt8,
      oid ∈ (deliveries.map fun delivery => confirmedEvent arith delivery.1).map
        (fun event => event.orderId.string) ↔
      ∃ index < gateway.orders.openOrderCount, oid =
        fieldKey (StringView.ofList (idPrefix ++ toDecimal (index + 1))) := by
    intro oid
    have sameIds : (deliveries.map fun delivery => confirmedEvent arith delivery.1).map
        (fun event => event.orderId.string) =
        ((deliveries.map Prod.fst).map OrderCancelRequest.clOrdId).map
          fun clOrdId => fieldKey (StringView.ofList clOrdId) := by
      simp only [List.map_map]
      apply List.map_congr_left
      intro delivery _
      exact orderId_confirmedEvent arith delivery.1
    rw [sameIds, (idsPerm.map _).mem_iff]
    simp [cancelIds, eq_comm]
  rw [receiveAll_confirm_iff arith gateway deliveries fun orders =>
      (∀ order ∈ gateway.orders.openOrders, ∃ order',
        orders.find? order.key = some order' ∧ order'.state = .cancelled) ∧
      orders.openOrderCount = 0,
    OrderManager.closed_by_cancels_iff arith gateway.orders cancels, count, and_comm]
  simp only [named]

/-- The default prefix of `cancel_all`. -/
def defaultPrefix : List UInt8 := ascii "KS"

/-- A connected gateway with one pending order. -/
def workingOrder (orderId : List UInt8) : FIXGateway :=
  { connectedGateway with
    orders := OrderManager.initial.applyEvent .wrapping
      (makeNewOrder sampleArgs.symbol .buy 1 0 (StringView.ofList orderId)) }

/-- The confirmations in the order of the requests. -/
def inOrder (gateway : FIXGateway) : List (OrderCancelRequest × Nat) :=
  (requests gateway.orders defaultPrefix).map fun request => (request, 0)

theorem inOrder_perm (gateway : FIXGateway) :
    ((inOrder gateway).map Prod.fst).Perm (requests gateway.orders defaultPrefix) := by
  rw [inOrder, List.map_map]
  exact .of_eq (List.map_id _)

/-- An order that happens to be called `KS1` is closed. -/
theorem confirmed_cancels_close_coincidence :
    ∃ after, (workingOrder (ascii "KS1")).receiveAll .wrapping
        ((inOrder (workingOrder (ascii "KS1"))).map fun delivery =>
          (confirm delivery.1, delivery.2)) = .returned after ∧
      (∀ order ∈ (workingOrder (ascii "KS1")).orders.openOrders, ∃ order',
        after.orders.find? order.key = some order' ∧ order'.state = .cancelled) ∧
      after.orders.openOrderCount = 0 :=
  (confirmed_cancels_close_iff .wrapping (workingOrder (ascii "KS1")) defaultPrefix
    (inOrder_perm _)).mpr (by decide)

/-- An order with an id of the gateway's own stays open when its cancel is confirmed. -/
theorem confirmed_cancel_leaves_order_open :
    ¬∀ (gateway : FIXGateway) (idPrefix : List UInt8)
      (deliveries : List (OrderCancelRequest × Nat)),
      (deliveries.map Prod.fst).Perm (requests gateway.orders idPrefix) →
      ∃ after, gateway.receiveAll .wrapping
          (deliveries.map fun delivery => (confirm delivery.1, delivery.2)) = .returned after ∧
        (∀ order ∈ gateway.orders.openOrders, ∃ order',
          after.orders.find? order.key = some order' ∧ order'.state = .cancelled) ∧
        after.orders.openOrderCount = 0 := by
  intro always
  obtain ⟨after, returned, _, closed⟩ := always (workingOrder (ascii "ORD0")) defaultPrefix _
    (inOrder_perm _)
  cases returned
  revert closed
  decide

end Hft.Gateway.FIXGateway
