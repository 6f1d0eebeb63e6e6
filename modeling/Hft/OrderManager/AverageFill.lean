import Hft.Logical.RunningAverage
import Hft.Projections
import Mathlib.Algebra.Order.BigOperators.Group.List

/-!
# The average fill price of an order

An order keeps its average fill price and not the cost it was computed from. A fill
multiplies the average out again, so whatever the last division dropped is missing from
the cost, and the next division drops some more. Two fills never lose enough to show;
from the third on the average is the truncated average of all fills only while the
dropped remainders stay below the filled quantity (`avgFillPrice_eq_iff`).
-/

namespace Hft

open Logical

/-- Price and quantity of a fill. -/
def OrderEvent.executed (event : OrderEvent) : Int × Int := (event.fillPrice, event.fillQty)

namespace OrderManager

/-- The fills of an order since its id was last opened, from the events that carry the id. -/
def fillsBooked (events : List OrderEvent) : List OrderEvent :=
  events.foldl (fun fills event =>
    if event.type = .newOrder then [] else if event.isFill then fills ++ [event] else fills) []

theorem fillsBooked_concat (events : List OrderEvent) (event : OrderEvent) :
    fillsBooked (events ++ [event]) =
      if event.type = .newOrder then [] else
        if event.isFill then fillsBooked events ++ [event] else fillsBooked events := by
  rw [fillsBooked, List.foldl_append]
  rfl

theorem mem_of_mem_fillsBooked {events : List OrderEvent} {fill : OrderEvent}
    (member : fill ∈ fillsBooked events) : fill ∈ events ∧ fill.isFill = true := by
  induction events using List.reverseRecOn with
  | nil => exact absurd member List.not_mem_nil
  | append_singleton earlier event ih =>
      rw [fillsBooked_concat] at member
      split_ifs at member with isNew isFill
      · exact absurd member List.not_mem_nil
      · obtain before | last := List.mem_append.mp member
        · exact ⟨List.mem_append_left _ (ih before).1, (ih before).2⟩
        · rw [List.mem_singleton.mp last]
          exact ⟨List.mem_append_right _ List.mem_cons_self, isFill⟩
      · exact ⟨List.mem_append_left _ (ih member).1, (ih member).2⟩

end OrderManager

namespace Order

/-- Filled quantity and average of an order account for its fills. -/
structure Averages (order : Order) (fills : List OrderEvent) : Prop where
  filled : order.filledQty = (Tally.of (fills.map OrderEvent.executed)).held
  accounts : Accounts order.avgFillPrice (Tally.of (fills.map OrderEvent.executed))

theorem avgFillPrice_fill {event : OrderEvent} {order : Order}
    (filled : 0 < order.filledQty + event.fillQty) :
    (order.fill .exact event).avgFillPrice =
      averaged order.avgFillPrice order.filledQty event.fillPrice event.fillQty :=
  if_pos filled

theorem averages_of_opened (orderId : CharArray 8) (event : OrderEvent) :
    (opened orderId event).Averages [] :=
  ⟨rfl, ⟨rfl, le_rfl, le_rfl, le_rfl⟩⟩

theorem Averages.fill {order : Order} {fills : List OrderEvent} {event : OrderEvent}
    (averages : order.Averages fills) (price : 0 ≤ event.fillPrice) (positive : 0 < event.fillQty) :
    (order.fill .exact event).Averages (fills ++ [event]) := by
  have held := averages.accounts.held_nonneg
  rw [← averages.filled] at held
  have tally : Tally.of ((fills ++ [event]).map OrderEvent.executed) =
      (Tally.of (fills.map OrderEvent.executed)).add event.executed := by
    rw [List.map_append, List.map_singleton, Tally.of_concat]
  constructor
  · rw [tally]
    exact congrArg (· + event.fillQty) averages.filled
  · rw [tally, avgFillPrice_fill (by omega), averages.filled]
    exact averages.accounts.averaged price positive

theorem Averages.eq_iff {order : Order} {fills : List OrderEvent} (averages : order.Averages fills)
    (positive : 0 < (fills.map OrderEvent.fillQty).sum) :
    order.avgFillPrice =
        (fills.map fun fill : OrderEvent => fill.fillPrice * fill.fillQty).sum.tdiv
          (fills.map OrderEvent.fillQty).sum ↔
      (Tally.of (fills.map OrderEvent.executed)).dropped < (fills.map OrderEvent.fillQty).sum := by
  have cost : (Tally.of (fills.map OrderEvent.executed)).cost =
      (fills.map fun fill : OrderEvent => fill.fillPrice * fill.fillQty).sum := by
    rw [Tally.cost_of, List.map_map]
    rfl
  have held : (Tally.of (fills.map OrderEvent.executed)).held =
      (fills.map OrderEvent.fillQty).sum := by
    rw [Tally.held_of, List.map_map]
    rfl
  rw [← cost, ← held]
  exact averages.accounts.eq_iff (by rwa [held])

/-- After two fills the average is still the one of both. -/
theorem Averages.of_two {order : Order} {first second : OrderEvent}
    (averages : order.Averages [first, second]) (firstPos : 0 < first.fillQty)
    (secondPos : 0 < second.fillQty) :
    order.avgFillPrice = (first.fillPrice * first.fillQty + second.fillPrice * second.fillQty).tdiv
      (first.fillQty + second.fillQty) := by
  have few := @Tally.dropped_of_two first.executed second.executed firstPos secondPos
  have whole : 0 < (Tally.of [first.executed, second.executed]).held := by
    simp only [Tally.held_of, List.map_cons, List.map_nil, List.sum_cons, List.sum_nil,
      OrderEvent.executed]
    omega
  have same := (averages.accounts.eq_iff whole).mpr few
  simpa [Tally.cost_of, Tally.held_of, OrderEvent.executed] using same

end Order

namespace OrderManager

theorem averages_of_foldl {events : List OrderEvent}
    (fields : ∀ event ∈ events, event.isFill = true → 0 < event.fillQty ∧ 0 ≤ event.fillPrice)
    {order : Order}
    (folded : events.foldl (SlotTable.advance openedBy (rewrite .exact)) none = some order) :
    order.Averages (fillsBooked events) := by
  induction events using List.reverseRecOn generalizing order with
  | nil => cases folded
  | append_singleton earlier event ih =>
      rw [List.foldl_append] at folded
      rw [fillsBooked_concat]
      have last := fields event (List.mem_append_right _ List.mem_cons_self)
      cases slot : earlier.foldl (SlotTable.advance openedBy (rewrite .exact)) none with
      | none =>
          simp only [slot, List.foldl_cons, List.foldl_nil, SlotTable.advance, openedBy] at folded
          split at folded
          · rename_i isNew
            rw [if_pos isNew, ← Option.some.inj folded]
            exact Order.averages_of_opened _ event
          · cases folded
      | some before =>
          have averages := ih (fun other member =>
            fields other (List.mem_append_left _ member)) slot
          simp only [slot, List.foldl_cons, List.foldl_nil, SlotTable.advance] at folded
          rw [← Option.some.inj folded]
          cases type : event.type with
          | newOrder =>
              simp only [rewrite, type, if_true]
              exact Order.averages_of_opened _ event
          | partialFill =>
              have isFill : event.isFill = true := by simp [OrderEvent.isFill, type]
              simp only [rewrite, type, reduceCtorEq, if_false, isFill, if_true]
              exact averages.fill (last isFill).2 (last isFill).1
          | fullFill =>
              have isFill : event.isFill = true := by simp [OrderEvent.isFill, type]
              simp only [rewrite, type, reduceCtorEq, if_false, isFill, if_true]
              exact averages.fill (last isFill).2 (last isFill).1
          -- No other event touches the quantity or the average.
          | _ =>
              have notFill : event.isFill = false := by simp [OrderEvent.isFill, type]
              simp only [rewrite, type, reduceCtorEq, if_false, notFill, Bool.false_eq_true]
              exact ⟨averages.filled, averages.accounts⟩

/-- An order's average fill price is the truncated average of all its fills exactly while the
remainders its divisions dropped stay below its filled quantity. -/
theorem avgFillPrice_eq_iff {events : List OrderEvent}
    (fields : ∀ event ∈ events, event.isFill = true → 0 < event.fillQty ∧ 0 ≤ event.fillPrice)
    {oid : StringView} {order : Order} (found : (project .exact events).find oid = some order)
    (filled : fillsBooked (eventsOf oid events) ≠ []) :
    let fills := fillsBooked (eventsOf oid events)
    order.avgFillPrice =
        (fills.map fun fill : OrderEvent => fill.fillPrice * fill.fillQty).sum.tdiv
          (fills.map OrderEvent.fillQty).sum ↔
      (Tally.of (fills.map OrderEvent.executed)).dropped < (fills.map OrderEvent.fillQty).sum := by
  intro fills
  rw [find_eq_find?] at found
  have averages : order.Averages fills := averages_of_foldl (fun event member =>
    fields event (List.mem_of_mem_filter member)) ((projects .exact).find?_of_found found)
  refine averages.eq_iff (List.sum_pos _ (fun qty member => ?_) (by simpa using filled))
  obtain ⟨fill, inFills, rfl⟩ := List.mem_map.mp member
  obtain ⟨own, isFill⟩ := mem_of_mem_fillsBooked inFills
  exact (fields fill (List.mem_of_mem_filter own) isFill).1

/-- An order, and fills of one share of it at the given prices. -/
def filledAt (prices : List Int) : List OrderEvent :=
  let sym := StringView.ofList (ascii "AAPL")
  let oid := StringView.ofList (ascii "O1")
  makeNewOrder sym .buy 10 5 oid :: prices.map fun price => makeFill sym .buy 1 price oid true

/-- Two fills average to what their cost divides to. -/
theorem avgFillPrice_of_two_fills :
    ∃ order, (project .exact (filledAt [3, 4])).find (StringView.ofList (ascii "O1")) =
      some order ∧ order.avgFillPrice = (3 * 1 + 4 * 1 : Int).tdiv (1 + 1) := by
  have isThere : ((project .exact (filledAt [3, 4])).find
      (StringView.ofList (ascii "O1"))).isSome := by decide +kernel
  obtain ⟨order, found⟩ := Option.isSome_iff_exists.mp isThere
  have fields : ∀ event ∈ filledAt [3, 4], event.isFill = true →
      0 < event.fillQty ∧ 0 ≤ event.fillPrice := by decide
  have exact_iff := avgFillPrice_eq_iff fields found (by decide +kernel)
  exact ⟨order, found, exact_iff.mpr (by decide +kernel)⟩

/-- Three shares filled at 1, 2 and 3 cost 6, and their average is kept as 1. -/
theorem avgFillPrice_drifts :
    ¬∀ (events : List OrderEvent), (∀ event ∈ events, event.isFill = true →
        0 < event.fillQty ∧ 0 ≤ event.fillPrice) →
      ∀ oid order, (project .exact events).find oid = some order →
        let fills := fillsBooked (eventsOf oid events)
        fills ≠ [] → order.avgFillPrice =
          (fills.map fun fill : OrderEvent => fill.fillPrice * fill.fillQty).sum.tdiv
            (fills.map OrderEvent.fillQty).sum := by
  intro always
  have kept : ((project .exact (filledAt [1, 2, 3])).find (StringView.ofList (ascii "O1"))).map
      Order.avgFillPrice = some 1 := by decide +kernel
  obtain ⟨order, found, average⟩ := Option.map_eq_some_iff.mp kept
  have same := always (filledAt [1, 2, 3]) (by decide) _ order found (by decide +kernel)
  rw [average] at same
  exact absurd same (by decide +kernel)

end OrderManager

end Hft
