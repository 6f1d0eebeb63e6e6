import Hft.EventLog
import Hft.Logical.Arithmetic
import Hft.Logical.SlotTable

/-!
# The order book-keeping projection

One slot per order id, filled in the order in which `NewOrder` events introduce
the ids. The handlers write through the slot that `find` returns; `find_eq_find?`
shows that the 8-byte `strncmp` search is the search for a key, so every frame
fact about a handler is one about `SlotTable.update` or `SlotTable.upsert`.
-/

namespace Hft

open Logical

inductive OrderState where
  | pending
  | partiallyFilled
  | filled
  | cancelled
  | rejected
deriving DecidableEq, Repr

structure Order where
  orderId : CharArray 8
  symbol : CharArray 8
  limitPrice : Int
  avgFillPrice : Int
  openedSeq : Nat
  lastSeq : Nat
  originalQty : Int
  filledQty : Int
  state : OrderState
  side : Side
deriving DecidableEq

namespace Order

/-- What a search by order id compares. -/
def key (order : Order) : List UInt8 := order.orderId.string

def remainingQty (arith : Arithmetic) (order : Order) : Int :=
  arith.int32 (order.originalQty - order.filledQty)

def isOpen (order : Order) : Bool := order.state = .pending || order.state = .partiallyFilled

/-- The slot `handle_new` leaves behind: every field but the id is written. -/
def opened (orderId : CharArray 8) (event : OrderEvent) : Order where
  orderId := orderId
  symbol := strncpy event.symbol.pointer 8
  state := .pending
  side := event.side
  limitPrice := event.price
  originalQty := event.qty
  filledQty := 0
  avgFillPrice := 0
  openedSeq := event.sequence
  lastSeq := event.sequence

/-- The slot `handle_fill` leaves behind. Division truncates toward zero. -/
def fill (arith : Arithmetic) (event : OrderEvent) (order : Order) : Order :=
  let prevCost := arith.int64 (order.avgFillPrice * order.filledQty)
  let fillCost := arith.int64 (event.fillPrice * event.fillQty)
  let newFilled := arith.int32 (order.filledQty + event.fillQty)
  let filled := { order with
    avgFillPrice := if 0 < newFilled then (arith.int64 (prevCost + fillCost)).tdiv newFilled else 0
    filledQty := newFilled
    lastSeq := event.sequence }
  { filled with
    state := if filled.remainingQty arith ≤ 0 then .filled else .partiallyFilled }

/-- The slot `handle_cancel` leaves behind, whatever the state was. -/
def cancel (event : OrderEvent) (order : Order) : Order :=
  { order with state := .cancelled, lastSeq := event.sequence }

/-- The slot `handle_reject` leaves behind, whatever the state was. -/
def reject (event : OrderEvent) (order : Order) : Order :=
  { order with state := .rejected, lastSeq := event.sequence }

/-- The slot `handle_amend` leaves behind. -/
def amend (event : OrderEvent) (order : Order) : Order :=
  { order with
    originalQty := if 0 < event.qty then event.qty else order.originalQty
    limitPrice := if 0 < event.price then event.price else order.limitPrice
    lastSeq := event.sequence }

/-! No handler changes the id a slot is found by. -/

@[simp] theorem key_opened (order : Order) (event : OrderEvent) :
    (opened order.orderId event).key = order.key := rfl

@[simp] theorem key_fill (arith : Arithmetic) (event : OrderEvent) (order : Order) :
    (order.fill arith event).key = order.key := rfl

@[simp] theorem key_cancel (event : OrderEvent) (order : Order) :
    (order.cancel event).key = order.key := rfl

@[simp] theorem key_reject (event : OrderEvent) (order : Order) :
    (order.reject event).key = order.key := rfl

@[simp] theorem key_amend (event : OrderEvent) (order : Order) :
    (order.amend event).key = order.key := rfl

/-- A fill that does not pass the order's quantity is booked as it is. -/
theorem fill_of_le (arith : Arithmetic) {event : OrderEvent} {order : Order}
    (nonneg : 0 ≤ order.filledQty) (positive : 0 < event.fillQty)
    (within : order.filledQty + event.fillQty ≤ order.originalQty)
    (typed : order.originalQty < 2 ^ 31) :
    (order.fill arith event).filledQty = order.filledQty + event.fillQty ∧
      (order.fill arith event).state =
        if order.originalQty ≤ order.filledQty + event.fillQty then .filled
        else .partiallyFilled := by
  have newFilled : arith.int32 (order.filledQty + event.fillQty) =
      order.filledQty + event.fillQty :=
    arith.int32_exact (inRange_32 (by omega) (by omega))
  have newRemaining : arith.int32 (order.originalQty - (order.filledQty + event.fillQty)) =
      order.originalQty - (order.filledQty + event.fillQty) :=
    arith.int32_exact (inRange_32 (by omega) (by omega))
  simp only [fill, remainingQty, newFilled, newRemaining, true_and]
  congr 1
  simp only [eq_iff_iff]
  omega

end Order

/-- `MAX_ORDERS`. -/
def maxOrders : Nat := 512

/-- The occupied slots `[0, count_)` of the order array. -/
abbrev OrderManager := SlotTable Order Order.key maxOrders

namespace OrderManager

/-- A freshly constructed manager. -/
def initial : OrderManager := SlotTable.empty

/-- `find` and `get`. -/
def find (orders : OrderManager) (oid : StringView) : Option Order :=
  orders.slots.find? fun order => strncmp order.orderId.pointer oid.data 8 = 0

/-- `get_or_create` clears the slot it takes, but every cleared field is written
before `handle_new` returns, so no cleared slot is ever read. -/
def handleNew (orders : OrderManager) (event : OrderEvent) : OrderManager :=
  orders.upsert (Order.opened (strncpy event.orderIdView.data 8) event)
    (fun order => Order.opened order.orderId event) fun order => order.key_opened event

def handleFill (arith : Arithmetic) (orders : OrderManager) (event : OrderEvent) : OrderManager :=
  orders.update (fieldKey event.orderIdView) (Order.fill arith event) (Order.key_fill arith event)

def handleCancel (orders : OrderManager) (event : OrderEvent) : OrderManager :=
  orders.update (fieldKey event.orderIdView) (Order.cancel event) (Order.key_cancel event)

def handleReject (orders : OrderManager) (event : OrderEvent) : OrderManager :=
  orders.update (fieldKey event.orderIdView) (Order.reject event) (Order.key_reject event)

def handleAmend (orders : OrderManager) (event : OrderEvent) : OrderManager :=
  orders.update (fieldKey event.orderIdView) (Order.amend event) (Order.key_amend event)

def applyEvent (arith : Arithmetic) (orders : OrderManager) (event : OrderEvent) : OrderManager :=
  match event.type with
  | .newOrder => orders.handleNew event
  -- The `PartialFill` label falls through to the `FullFill` one.
  | .partialFill => orders.handleFill arith event
  | .fullFill => orders.handleFill arith event
  | .cancel => orders.handleCancel event
  | .reject => orders.handleReject event
  | .amend => orders.handleAmend event
  | .unset => orders

/-- `replay_from` forgets what the manager held and folds the log. -/
def replayFrom (arith : Arithmetic) (_orders : OrderManager) (log : EventLog) : OrderManager :=
  log.replay (applyEvent arith) initial

/-- The orders `for_each_open` visits, in visiting order. -/
def openOrders (orders : OrderManager) : List Order := orders.slots.filter Order.isOpen

/-- One iteration of the `open_exposure` scan. -/
def addExposure (arith : Arithmetic) (sym : StringView) (exposure : Int) (order : Order) : Int :=
  if !order.isOpen then exposure
  else if strncmp order.symbol.pointer sym.data 8 ≠ 0 then exposure
  else arith.int32 (exposure +
    if order.side = .buy then order.remainingQty arith
    else arith.int32 (-order.remainingQty arith))

def openExposure (arith : Arithmetic) (orders : OrderManager) (sym : StringView) : Int :=
  orders.slots.foldl (addExposure arith sym) 0

def orderCount (orders : OrderManager) : Nat := orders.slots.length

def openOrderCount (orders : OrderManager) : Nat := orders.openOrders.length

/-- The `strncmp` search is a search by key. -/
theorem find_eq_find? (orders : OrderManager) (oid : StringView) :
    orders.find oid = orders.find? (fieldKey oid) := by
  unfold find SlotTable.find?
  congr 1
  funext order
  exact decide_eq_decide.mpr strncmp_eq_zero_iff

/-- The id under which an event's slot is kept. -/
@[simp] theorem key_opened_strncpy (event : OrderEvent) :
    (Order.opened (strncpy event.orderIdView.data 8) event).key = event.orderId.string := by
  simp [Order.opened, Order.key, OrderEvent.orderIdView]

/-- A new id takes the next slot. -/
theorem slots_handleNew {orders : OrderManager} {event : OrderEvent}
    (isNew : orders.find? event.orderId.string = none) (room : orders.orderCount < maxOrders) :
    (orders.handleNew event).slots =
      orders.slots ++ [Order.opened (strncpy event.orderIdView.data 8) event] := by
  have absent : orders.find? (Order.opened (strncpy event.orderIdView.data 8) event).key =
      none := by
    rwa [key_opened_strncpy]
  exact SlotTable.slots_upsert_of_room _ absent room

/-- How each event type rewrites the slot it addresses. `NewOrder` is apart: it is
the only type that can create one. -/
def rewrite (arith : Arithmetic) (event : OrderEvent) (order : Order) : Order :=
  match event.type with
  | .newOrder => Order.opened order.orderId event
  | .partialFill => order.fill arith event
  | .fullFill => order.fill arith event
  | .cancel => order.cancel event
  | .reject => order.reject event
  | .amend => order.amend event
  | .unset => order

@[simp] theorem key_rewrite (arith : Arithmetic) (event : OrderEvent) (order : Order) :
    (rewrite arith event order).key = order.key := by
  unfold rewrite
  split <;> rfl

/-- Every event but a `NewOrder` rewrites the slot of its id and nothing else. -/
theorem applyEvent_of_ne_newOrder (arith : Arithmetic) (orders : OrderManager) {event : OrderEvent}
    (notNew : event.type ≠ .newOrder) :
    orders.applyEvent arith event =
      orders.update event.orderId.string (rewrite arith event) (key_rewrite arith event) := by
  have sameWrite : ∀ write keeps, rewrite arith event = write →
      orders.update event.orderId.string write keeps =
        orders.update event.orderId.string (rewrite arith event) (key_rewrite arith event) := by
    rintro write keeps rfl
    rfl
  unfold applyEvent
  cases type : event.type with
  | newOrder => exact absurd type notNew
  | partialFill => exact sameWrite _ _ (by funext order; simp [rewrite, type])
  | fullFill => exact sameWrite _ _ (by funext order; simp [rewrite, type])
  | cancel => exact sameWrite _ _ (by funext order; simp [rewrite, type])
  | reject => exact sameWrite _ _ (by funext order; simp [rewrite, type])
  | amend => exact sameWrite _ _ (by funext order; simp [rewrite, type])
  | unset =>
      rw [← sameWrite id (fun _ => rfl) (by funext order; simp [rewrite, type])]
      apply SlotTable.ext
      simp [SlotTable.update]

theorem applyEvent_of_newOrder (arith : Arithmetic) (orders : OrderManager) {event : OrderEvent}
    (isNew : event.type = .newOrder) :
    orders.applyEvent arith event = orders.handleNew event := by
  simp [applyEvent, isNew]

theorem applyEvent_of_isFill (arith : Arithmetic) (orders : OrderManager) {event : OrderEvent}
    (isFill : event.isFill = true) :
    orders.applyEvent arith event = orders.handleFill arith event := by
  unfold applyEvent
  cases type : event.type <;> simp_all [OrderEvent.isFill]

/-- No event touches the slot of another id. -/
theorem find?_applyEvent_of_ne (arith : Arithmetic) (orders : OrderManager) {event : OrderEvent}
    {other : List UInt8} (differs : other ≠ event.orderId.string) :
    (orders.applyEvent arith event).find? other = orders.find? other := by
  by_cases isNew : event.type = .newOrder
  · rw [applyEvent_of_newOrder arith orders isNew]
    exact SlotTable.find?_upsert_of_ne _ (by simpa using differs)
  · rw [applyEvent_of_ne_newOrder arith orders isNew]
    exact SlotTable.find?_update_of_ne _ differs

/-- An event rewrites the slot of its own id in place. -/
theorem find?_applyEvent_self (arith : Arithmetic) (orders : OrderManager) {event : OrderEvent}
    {order : Order} (found : orders.find? event.orderId.string = some order) :
    (orders.applyEvent arith event).find? event.orderId.string =
      some (rewrite arith event order) := by
  by_cases isNew : event.type = .newOrder
  · have foundKey : orders.find? (Order.opened (strncpy event.orderIdView.data 8) event).key =
        some order := by simpa using found
    rw [applyEvent_of_newOrder arith orders isNew, handleNew, SlotTable.upsert_of_found _ foundKey]
    rw [← key_opened_strncpy event]
    rw [SlotTable.find?_update_self _ foundKey]
    simp [rewrite, isNew]
  · rw [applyEvent_of_ne_newOrder arith orders isNew]
    exact SlotTable.find?_update_self _ found

/-- Which ids have slots, and in which order, depends on the ids of the `NewOrder`
events alone. -/
theorem keys_applyEvent (arith : Arithmetic) (orders : OrderManager) (event : OrderEvent) :
    (orders.applyEvent arith event).keys =
      if event.type = .newOrder ∧ event.orderId.string ∉ orders.keys ∧
          orders.orderCount < maxOrders then orders.keys ++ [event.orderId.string]
      else orders.keys := by
  by_cases isNew : event.type = .newOrder
  · rw [applyEvent_of_newOrder arith orders isNew, handleNew, SlotTable.keys_upsert,
      key_opened_strncpy]
    simp [isNew, orderCount]
  · rw [applyEvent_of_ne_newOrder arith orders isNew, SlotTable.keys_update]
    simp [isNew]

end OrderManager

end Hft
