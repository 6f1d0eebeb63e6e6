import Hft.Gateway.Killswitch

/-!
# What one `cancel_all` covers

The call scans the order table and never writes to it, so one call attempts one request
for each open order whatever becomes of the requests before it. `cancelScan` carries the
books through the scan, and `cancelAll_covers` says what the call has attempted when it is
over and that the books are the ones it began with.
-/

namespace Hft.Gateway.Killswitch

open Logical

/-- A scan of the killswitch: the books it refers to and the attempts made so far. -/
structure Scan (Message : Type) where
  orders : OrderManager
  tracker : PositionTracker
  attempts : List (Attempt Message)

/-- `cancel_all` with the books passed from visit to visit. -/
def cancelScan (orders : OrderManager) (tracker : PositionTracker) (idPrefix : List UInt8)
    (sessionFound : Nat → Bool) : Scan OrderCancelRequest :=
  orders.openOrders.foldl
    (fun scan order =>
      { scan with attempts := cancelVisit idPrefix sessionFound scan.attempts order })
    ⟨orders, tracker, []⟩

/-- No visit touches the books. -/
theorem cancelScan_eq (orders : OrderManager) (tracker : PositionTracker) (idPrefix : List UInt8)
    (sessionFound : Nat → Bool) :
    cancelScan orders tracker idPrefix sessionFound =
      ⟨orders, tracker, cancelAll orders idPrefix sessionFound⟩ := by
  have visits : ∀ (working : List Order) (attempts : List (Attempt OrderCancelRequest)),
      working.foldl
          (fun scan order =>
            { scan with attempts := cancelVisit idPrefix sessionFound scan.attempts order })
          (⟨orders, tracker, attempts⟩ : Scan OrderCancelRequest) =
        ⟨orders, tracker, working.foldl (cancelVisit idPrefix sessionFound) attempts⟩ := by
    intro working
    induction working with
    | nil => exact fun _ => rfl
    | cons order rest ih => exact fun attempts => ih _
  exact visits orders.openOrders []

/-- The ids a call makes up never meet: they differ in the number behind the prefix. -/
theorem numbered_injective (idPrefix : List UInt8) :
    Function.Injective fun index => idPrefix ++ toDecimal (index + 1) := by
  intro left right same
  exact Nat.succ_injective (toDecimal_injective (List.append_cancel_left same))

/-- What `cancel_all` is for: one request for every open order and none for any other, under
ids of its own, one outcome of `sendToTarget` for each, and the books as they were. -/
structure Covers (orders : OrderManager) (tracker : PositionTracker) (sessionFound : Nat → Bool)
    (scan : Scan OrderCancelRequest) : Prop where
  once : ∀ order ∈ orders.slots,
    (scan.attempts.map fun attempt => attempt.message.origClOrdId).count order.orderId.string =
      if order.isOpen then 1 else 0
  asked : (scan.attempts.map fun attempt =>
      (attempt.message.origClOrdId, attempt.message.symbol, attempt.message.side)) =
    orders.openOrders.map fun order =>
      (order.orderId.string, order.symbol.string, sideField order.side)
  distinct : (scan.attempts.map fun attempt => attempt.message.clOrdId).Nodup
  outcomes : scan.attempts.map Attempt.delivered =
    (List.range orders.openOrderCount).map fun index => sessionFound (index + 1)
  sameOrders : scan.orders = orders
  sameTracker : scan.tracker = tracker

/-- The requests name the open orders in scan order. -/
theorem map_origClOrdId_cancelAll (orders : OrderManager) (idPrefix : List UInt8)
    (sessionFound : Nat → Bool) :
    (cancelAll orders idPrefix sessionFound).map (fun attempt => attempt.message.origClOrdId) =
      orders.openOrders.map Order.key := by
  rw [cancelAll_eq_mapIdx]
  refine map_mapIdx_eq_map ?_ _
  intro index order
  rfl

/-- One id, one slot: an order is named once if it is open and not at all otherwise. -/
theorem count_origClOrdId_cancelAll {orders : OrderManager} {order : Order}
    (member : order ∈ orders.slots) (idPrefix : List UInt8) (sessionFound : Nat → Bool) :
    ((cancelAll orders idPrefix sessionFound).map
        fun attempt => attempt.message.origClOrdId).count order.key =
      if order.isOpen then 1 else 0 := by
  have distinct : (orders.openOrders.map Order.key).Nodup :=
    orders.distinct.sublist (List.filter_sublist.map _)
  rw [map_origClOrdId_cancelAll, distinct.count]
  congr 1
  rw [eq_iff_iff, List.mem_map]
  constructor
  · rintro ⟨twin, inOpen, same⟩
    obtain ⟨inTable, isOpen⟩ := List.mem_filter.mp inOpen
    rw [← orders.eq_of_key_eq inTable member same]
    exact isOpen
  · intro isOpen
    exact ⟨order, List.mem_filter.mpr ⟨member, isOpen⟩, rfl⟩

/-- Whatever becomes of each send, the call asks once for every open order and for nothing
else, and it leaves the books alone. -/
theorem cancelAll_covers (orders : OrderManager) (tracker : PositionTracker)
    (idPrefix : List UInt8) (sessionFound : Nat → Bool) :
    Covers orders tracker sessionFound (cancelScan orders tracker idPrefix sessionFound) ∧
      ∀ otherwise : Nat → Bool,
        (cancelScan orders tracker idPrefix otherwise).attempts.map Attempt.message =
          (cancelScan orders tracker idPrefix sessionFound).attempts.map Attempt.message := by
  simp only [cancelScan_eq]
  constructor
  · refine ⟨fun order member => count_origClOrdId_cancelAll member idPrefix sessionFound, ?_, ?_,
      ?_, rfl, rfl⟩
    · rw [cancelAll_eq_mapIdx]
      refine map_mapIdx_eq_map ?_ _
      intro index order
      rfl
    · rw [cancelAll_eq_mapIdx]
      refine nodup_map_mapIdx ?_ (numbered_injective idPrefix) _
      intro index order
      rfl
    · rw [cancelAll_eq_mapIdx]
      refine map_mapIdx_eq_range ?_ _
      intro index order
      rfl
  · intro otherwise
    rw [cancelAll_eq_mapIdx, cancelAll_eq_mapIdx, map_mapIdx, map_mapIdx]
    rfl

end Hft.Gateway.Killswitch
