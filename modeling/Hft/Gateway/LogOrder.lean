import Hft.Gateway.Interleaving
import Hft.Logical.Retelling
import Hft.SlotOrder

/-!
# One story, many logs

Two threads append to one log, so the same trading day can be logged in many orders. `Retells`
says what such logs have in common: each order's events and each symbol's fills, in their own
order and up to the stamps they were logged under. Two neighbours may trade places when they
belong to different orders and are not fills of one symbol (`Retells.swap`). The books rebuilt
from such logs hold the same records, in other slots.
-/

namespace Hft

open Logical

/-- An event but for the stamps it was logged under. -/
def OrderEvent.unstamped (event : OrderEvent) : OrderEvent := EventLog.stamp 0 0 event

namespace OrderEvent

@[simp] theorem type_unstamped (event : OrderEvent) : event.unstamped.type = event.type := rfl

@[simp] theorem orderId_unstamped (event : OrderEvent) : event.unstamped.orderId = event.orderId :=
  rfl

@[simp] theorem symbol_unstamped (event : OrderEvent) : event.unstamped.symbol = event.symbol := rfl

@[simp] theorem isFill_unstamped (event : OrderEvent) : event.unstamped.isFill = event.isFill := rfl

/-- Every event is stamped from one without stamps. -/
theorem stamp_unstamped (event : OrderEvent) :
    EventLog.stamp event.sequence event.timestampNs event.unstamped = event := rfl

end OrderEvent

/-- A position but for the stamp of its last fill. -/
def Position.unstamped (position : Position) : Position := { position with lastUpdatedSeq := 0 }

/-! ## The books -/

namespace PositionTracker

/-- Positions that differ in their stamps are on one symbol. -/
theorem key_eq_of_unstamped_eq (position position' : Position)
    (same : position.unstamped = position'.unstamped) : position.key = position'.key := by
  simp only [Position.unstamped, Position.mk.injEq] at same
  rw [Position.key, same.1, Position.key]

/-- The booking of either side takes no notice of the stamp. -/
theorem unstamped_bookBuy (arith : Arithmetic) (qty price : Int) (position : Position) :
    (position.bookBuy arith qty price).unstamped = position.unstamped.bookBuy arith qty price := by
  unfold Position.bookBuy
  by_cases long : 0 ≤ position.netQty
  · rw [if_pos long, if_pos (show 0 ≤ position.unstamped.netQty from long)]
    rfl
  · rw [if_neg long, if_neg (show ¬0 ≤ position.unstamped.netQty from long)]
    rfl

theorem unstamped_bookSell (arith : Arithmetic) (qty price : Int) (position : Position) :
    (position.bookSell arith qty price).unstamped =
      position.unstamped.bookSell arith qty price := by
  unfold Position.bookSell
  by_cases long : 0 < position.netQty
  · rw [if_pos long, if_pos (show 0 < position.unstamped.netQty from long)]
    rfl
  · rw [if_neg long, if_neg (show ¬0 < position.unstamped.netQty from long)]
    rfl

/-- A fill writes the stamp last and reads none. -/
theorem unstamped_applyFill (arith : Arithmetic) (event : OrderEvent) (position : Position) :
    (position.applyFill arith event).unstamped =
      (position.unstamped.applyFill arith event.unstamped).unstamped := by
  have revalued : ∀ booked : Position, ∀ seq : Nat,
      ({ booked.refreshUnrealized arith with lastUpdatedSeq := seq } : Position).unstamped =
        booked.unstamped.refreshUnrealized arith := fun _ _ => rfl
  have unstampedTwice : ∀ booked : Position, booked.unstamped.unstamped = booked.unstamped :=
    fun _ => rfl
  unfold Position.applyFill
  by_cases buys : event.side = .buy
  · rw [if_pos buys, if_pos (show event.unstamped.side = .buy from buys)]
    unfold Position.applyBuy
    rw [revalued, revalued, unstamped_bookBuy, unstamped_bookBuy]
    rfl
  · rw [if_neg buys, if_neg (show ¬event.unstamped.side = .buy from buys)]
    unfold Position.applySell
    rw [revalued, revalued, unstamped_bookSell, unstamped_bookSell]
    rfl

/-- A mark neither reads nor writes the stamp. -/
theorem unstamped_mark (arith : Arithmetic) (mktPriceFp : Int) (position : Position) :
    (position.mark arith mktPriceFp).unstamped = position.unstamped.mark arith mktPriceFp := by
  unfold Position.mark
  by_cases flat : position.isFlat = true
  · rw [if_pos flat, if_pos (show position.unstamped.isFlat = true from flat)]
  · rw [if_neg flat, if_neg (show ¬position.unstamped.isFlat = true from flat)]
    rfl

/-- The stamps of a fill reach nothing of a position but its own stamp. -/
theorem respects (arith : Arithmetic) :
    SlotTable.Respects (fun event : OrderEvent => event.symbol.string) (openedBy arith)
      (booked arith) OrderEvent.unstamped Position.unstamped where
  on {event event'} same := by simpa using congrArg (fun event => event.symbol.string) same
  opens {event event'} same := by
    have isFill : event.isFill = event'.isFill := by simpa using congrArg OrderEvent.isFill same
    have symbol : event.symbol = event'.symbol := by simpa using congrArg OrderEvent.symbol same
    unfold openedBy OrderEvent.symbolView
    rw [isFill, symbol]
    split
    · rw [Option.map_some, Option.map_some, unstamped_applyFill, same, ← unstamped_applyFill]
    · rfl
  rewrite {event event' position position'} same sameSlot := by
    have isFill : event.isFill = event'.isFill := by simpa using congrArg OrderEvent.isFill same
    unfold booked
    rw [isFill]
    split
    · rw [unstamped_applyFill, same, sameSlot, ← unstamped_applyFill]
    · exact sameSlot

end PositionTracker

namespace OrderManager

/-- The stamps of an event reach nothing of an order but the order's own. -/
theorem respects (arith : Arithmetic) :
    SlotTable.Respects (fun event : OrderEvent => event.orderId.string) openedBy (rewrite arith)
      OrderEvent.unstamped Order.logged where
  on {event event'} same := by simpa using congrArg (fun event => event.orderId.string) same
  opens {event event'} same := by
    have type : event.type = event'.type := by simpa using congrArg OrderEvent.type same
    unfold openedBy
    rw [type]
    split
    · exact congrArg (fun event => some (Order.opened (strncpy event.orderIdView.data 8) event))
        same
    · rfl
  rewrite {event event' order order'} same sameSlot := by
    rw [← event.stamp_unstamped, ← event'.stamp_unstamped, same,
      logged_rewrite arith _ _ _ _ _ sameSlot, logged_rewrite arith _ _ _ _ _ rfl]

end OrderManager

/-! ## The same story, told in another order -/

/-- Each order's events and each symbol's fills come in the same order in both, and the same ids
and symbols are among the first comers. -/
structure Retells (left right : List OrderEvent) : Prop where
  orders : ∀ oid, (OrderManager.eventsOf oid left).map OrderEvent.unstamped =
    (OrderManager.eventsOf oid right).map OrderEvent.unstamped
  fills : ∀ sym, (PositionTracker.fillsOf sym left).map OrderEvent.unstamped =
    (PositionTracker.fillsOf sym right).map OrderEvent.unstamped
  ids : ∀ name, name ∈ firstComers maxOrders (OrderManager.openedIds left) ↔
    name ∈ firstComers maxOrders (OrderManager.openedIds right)
  symbols : ∀ name, name ∈ firstComers maxSymbols (PositionTracker.fillSymbols left) ↔
    name ∈ firstComers maxSymbols (PositionTracker.fillSymbols right)

/-- The events of an order are found under their ids, stamped or not. -/
theorem unstamped_eventsOf (oid : StringView) (events : List OrderEvent) :
    (OrderManager.eventsOf oid events).map OrderEvent.unstamped =
      OrderManager.eventsOf oid (events.map OrderEvent.unstamped) := by
  rw [OrderManager.eventsOf, OrderManager.eventsOf, List.filter_map]
  rfl

/-- So are the fills of a symbol. -/
theorem unstamped_fillsOf (sym : StringView) (events : List OrderEvent) :
    (PositionTracker.fillsOf sym events).map OrderEvent.unstamped =
      PositionTracker.fillsOf sym (events.map OrderEvent.unstamped) := by
  rw [PositionTracker.fillsOf, PositionTracker.fillsOf, List.filter_map]
  rfl

/-- Every event has its place in the story of the order it names. -/
theorem perm_of_orders {left right : List OrderEvent}
    (orders : ∀ oid, (OrderManager.eventsOf oid left).map OrderEvent.unstamped =
      (OrderManager.eventsOf oid right).map OrderEvent.unstamped) :
    (left.map OrderEvent.unstamped).Perm (right.map OrderEvent.unstamped) := by
  rw [List.perm_iff_count]
  intro event
  have ownId : event.orderId.string = fieldKey event.orderIdView := by
    simp [fieldKey, OrderEvent.orderIdView]
  have told := orders event.orderIdView
  rw [unstamped_eventsOf, unstamped_eventsOf, OrderManager.eventsOf, OrderManager.eventsOf] at told
  have counted := congrArg (List.count event) told
  rwa [List.count_filter (by simpa using ownId), List.count_filter (by simpa using ownId)]
    at counted

namespace Retells

variable {left right : List OrderEvent}

/-- While a log names no more ids and symbols than there are slots, who comes first decides
nothing. -/
theorem of_few
    (orders : ∀ oid, (OrderManager.eventsOf oid left).map OrderEvent.unstamped =
      (OrderManager.eventsOf oid right).map OrderEvent.unstamped)
    (fills : ∀ sym, (PositionTracker.fillsOf sym left).map OrderEvent.unstamped =
      (PositionTracker.fillsOf sym right).map OrderEvent.unstamped)
    (fewIds : (firstMentions (OrderManager.openedIds left)).length ≤ maxOrders)
    (fewSymbols : (firstMentions (PositionTracker.fillSymbols left)).length ≤ maxSymbols) :
    Retells left right := by
  have perm := perm_of_orders orders
  have idsPerm : (OrderManager.openedIds left).Perm (OrderManager.openedIds right) := by
    have ids : ∀ events : List OrderEvent, OrderManager.openedIds events =
        OrderManager.openedIds (events.map OrderEvent.unstamped) := by
      intro events
      rw [OrderManager.openedIds, OrderManager.openedIds, List.filter_map, List.map_map]
      rfl
    rw [ids left, ids right]
    exact (perm.filter _).map _
  have symbolsPerm :
      (PositionTracker.fillSymbols left).Perm (PositionTracker.fillSymbols right) := by
    have symbols : ∀ events : List OrderEvent, PositionTracker.fillSymbols events =
        PositionTracker.fillSymbols (events.map OrderEvent.unstamped) := by
      intro events
      rw [PositionTracker.fillSymbols, PositionTracker.fillSymbols, List.filter_map, List.map_map]
      rfl
    rw [symbols left, symbols right]
    exact (perm.filter _).map _
  refine ⟨orders, fills, fun name => ?_, fun name => ?_⟩
  · rw [mem_firstComers_of_few fewIds,
      mem_firstComers_of_few ((firstMentions_perm idsPerm).length_eq ▸ fewIds), idsPerm.mem_iff]
  · rw [mem_firstComers_of_few fewSymbols,
      mem_firstComers_of_few ((firstMentions_perm symbolsPerm).length_eq ▸ fewSymbols),
      symbolsPerm.mem_iff]

/-- Two adjacent events may trade places when they name different orders and are not both fills
of one symbol. -/
theorem swap {before after : List OrderEvent} {first second : OrderEvent}
    (leftIs : left.map OrderEvent.unstamped = before ++ first :: second :: after)
    (rightIs : right.map OrderEvent.unstamped = before ++ second :: first :: after)
    (otherOrder : first.orderId.string ≠ second.orderId.string)
    (otherFill : ¬(first.isFill = true ∧ second.isFill = true ∧
      first.symbol.string = second.symbol.string))
    (fewIds : (firstMentions (OrderManager.openedIds left)).length ≤ maxOrders)
    (fewSymbols : (firstMentions (PositionTracker.fillSymbols left)).length ≤ maxSymbols) :
    Retells left right := by
  refine of_few (fun oid => ?_) (fun sym => ?_) fewIds fewSymbols
  · rw [unstamped_eventsOf, unstamped_eventsOf, leftIs, rightIs]
    apply filter_swap
    simp only [decide_eq_true_eq]
    exact fun both => otherOrder (both.1.trans both.2.symm)
  · rw [unstamped_fillsOf, unstamped_fillsOf, leftIs, rightIs]
    apply filter_swap
    simp only [decide_eq_true_eq]
    exact fun both => otherFill ⟨both.1.1, both.2.1, both.1.2.trans both.2.2.symm⟩

/-- Both logs rebuild the same orders, in whatever slots. -/
theorem orders_alike (retells : Retells left right) (arith : Arithmetic) :
    (OrderManager.project arith left).Alike Order.logged (OrderManager.project arith right) := by
  refine (OrderManager.projects arith).alike_foldl (OrderManager.respects arith) ?_ ?_
  · intro name
    change name ∈ (OrderManager.project arith left).keys ↔
      name ∈ (OrderManager.project arith right).keys
    rw [OrderManager.keys_project, OrderManager.keys_project]
    exact retells.ids name
  · intro name member
    obtain ⟨order, _, rfl⟩ := List.mem_map.mp member
    exact retells.orders ⟨order.orderId.pointer, 8⟩

/-- Both logs rebuild the same positions, in whatever slots. -/
theorem tracker_alike (retells : Retells left right) (arith : Arithmetic) :
    (PositionTracker.project arith left).Alike Position.unstamped
      (PositionTracker.project arith right) := by
  -- The events that are no fills tell a symbol nothing, and the two may differ in them.
  have fills : ∀ events : List OrderEvent, PositionTracker.project arith events =
      (events.filter OrderEvent.isFill).foldl (PositionTracker.applyEvent arith)
        PositionTracker.initial :=
    fun events => (PositionTracker.foldl_applyEvent_filter arith events _).symm
  have won : ∀ name, name ∈ (PositionTracker.project arith left).keys ↔
      name ∈ (PositionTracker.project arith right).keys := by
    intro name
    rw [PositionTracker.keys_project, PositionTracker.keys_project]
    exact retells.symbols name
  rw [fills left, fills right] at won ⊢
  refine (PositionTracker.projects arith).alike_foldl (PositionTracker.respects arith) won ?_
  intro name member
  obtain ⟨position, _, rfl⟩ := List.mem_map.mp member
  have told := retells.fills ⟨position.symbol.pointer, 8⟩
  rwa [← PositionTracker.filter_isFill_filter, ← PositionTracker.filter_isFill_filter] at told

end Retells

end Hft
