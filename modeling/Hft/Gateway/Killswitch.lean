import Hft.Gateway.MessageTranslator
import Hft.Logical.Numbering
import Hft.OrderManager
import Hft.PositionTracker

/-!
# The killswitch

Each call builds one message per open order or open position and hands it to the
session. A send that finds no session is caught and the scan goes on, so what a
call does is the list of its attempts, each with its fate.
-/

namespace Hft.Gateway

open Logical

/-- One `sendToTarget` call and whether the session was found. -/
structure Attempt (Message : Type) where
  message : Message
  delivered : Bool

namespace Killswitch

/-- The event `cancel_all` rebuilds from an order for the translator. -/
def cancelReference (order : Order) : OrderEvent :=
  { OrderEvent.zero with
    orderId := order.orderId
    symbol := order.symbol
    side := order.side }

/-- One visit of `cancel_all`. The counter is far below its 32-bit range: a visit is
made for each of at most `maxOrders` orders. -/
def cancelVisit (idPrefix : List UInt8) (sessionFound : Nat → Bool)
    (attempts : List (Attempt OrderCancelRequest)) (order : Order) :
    List (Attempt OrderCancelRequest) :=
  let count := attempts.length + 1
  let cancelId := idPrefix ++ toDecimal count
  attempts ++ [⟨MessageTranslator.toCancelRequest (cancelReference order) cancelId,
    sessionFound count⟩]

/-- `cancel_all`: one attempt per open order, numbered from 1. -/
def cancelAll (orders : OrderManager) (idPrefix : List UInt8) (sessionFound : Nat → Bool) :
    List (Attempt OrderCancelRequest) :=
  orders.openOrders.foldl (cancelVisit idPrefix sessionFound) []

/-- The market order `flatten` sends against a position. The quantity is narrowed to
32 bits. -/
def flattenOrder (arith : Arithmetic) (position : Position) (flatId : List UInt8) :
    NewOrderSingle :=
  let event := { OrderEvent.zero with
    type := .newOrder
    side := if 0 < position.netQty then .sell else .buy
    qty := arith.int32 (if 0 < position.netQty then position.netQty
      else arith.int64 (-position.netQty))
    price := 0
    symbol := position.symbol
    orderId := strncpy (Pointer.ofList flatId) 8 }
  { MessageTranslator.toNewOrderSingle event with ordType := '1', price := none }

/-- One visit of `flatten`; a flat position is passed over. -/
def flattenVisit (arith : Arithmetic) (idPrefix : List UInt8) (sessionFound : Nat → Bool)
    (attempts : List (Attempt NewOrderSingle)) (position : Position) :
    List (Attempt NewOrderSingle) :=
  if position.isFlat then attempts
  else
    let count := attempts.length + 1
    attempts ++ [⟨flattenOrder arith position (idPrefix ++ toDecimal count), sessionFound count⟩]

/-- `flatten`: one attempt per position that is not flat. -/
def flatten (arith : Arithmetic) (tracker : PositionTracker) (idPrefix : List UInt8)
    (sessionFound : Nat → Bool) : List (Attempt NewOrderSingle) :=
  tracker.slots.foldl (flattenVisit arith idPrefix sessionFound) []

/-- The attempt `cancel_all` makes for an order it counts. -/
def cancelAttempt (idPrefix : List UInt8) (sessionFound : Nat → Bool) (count : Nat)
    (order : Order) : Attempt OrderCancelRequest :=
  ⟨MessageTranslator.toCancelRequest (cancelReference order) (idPrefix ++ toDecimal count),
    sessionFound count⟩

/-- The attempt `flatten` makes for a position it counts. -/
def flattenAttempt (arith : Arithmetic) (idPrefix : List UInt8) (sessionFound : Nat → Bool)
    (count : Nat) (position : Position) : Attempt NewOrderSingle :=
  ⟨flattenOrder arith position (idPrefix ++ toDecimal count), sessionFound count⟩

theorem cancelAll_eq_mapIdx (orders : OrderManager) (idPrefix : List UInt8)
    (sessionFound : Nat → Bool) :
    cancelAll orders idPrefix sessionFound = orders.openOrders.mapIdx fun index order =>
      cancelAttempt idPrefix sessionFound (index + 1) order :=
  foldl_numbering (cancelAttempt idPrefix sessionFound) orders.openOrders

theorem flatten_eq_mapIdx (arith : Arithmetic) (tracker : PositionTracker) (idPrefix : List UInt8)
    (sessionFound : Nat → Bool) :
    flatten arith tracker idPrefix sessionFound =
      (tracker.slots.filter fun position => !position.isFlat).mapIdx fun index position =>
        flattenAttempt arith idPrefix sessionFound (index + 1) position :=
  foldl_numbering_filter Position.isFlat (flattenAttempt arith idPrefix sessionFound) tracker.slots

end Killswitch

end Hft.Gateway
