import Hft.Logical.FirstComers
import Hft.PositionTracker.Direction
import Hft.Projections

/-!
# Which slots are in use

Neither book ever frees a slot, and each takes its keys from one kind of event: the
positions from fills, the orders from `NewOrder`s. So the slots in use hold the first keys
that came, in the order in which they came, and whatever the later events are, a key
stays where it is and is found there.
-/

namespace Hft

open Logical

/-- A key as a caller writes it: eight characters, or fewer with a NUL behind them. -/
structure IsKey (view : StringView) : Prop where
  clean : ∀ index < view.size, view.data index ≠ 0
  ends : view.size = 8 ∨ view.size < 8 ∧ view.data view.size = 0

/-- The fields and the searches see such a key whole. -/
theorem IsKey.fieldKey_eq {view : StringView} (isKey : IsKey view) :
    fieldKey view = view.chars := by
  have short : view.chars.length ≤ 8 := by
    have := isKey.ends
    simp only [StringView.chars, List.length_map, List.length_range]
    omega
  have whole : fieldKey view = view.chars.take 8 := by
    refine text_eq_take_chars_iff.mpr ⟨fun index below => isKey.clean index (by omega), ?_⟩
    intro shorter
    exact (isKey.ends.resolve_left (by omega)).2
  rw [whole, List.take_of_length_le short]

namespace PositionTracker

variable (arith : Arithmetic)

/-- Only a fill of a new symbol takes a slot, while there is one, and it takes the next. -/
theorem keys_applyEvent (tracker : PositionTracker) (event : OrderEvent) :
    (tracker.applyEvent arith event).keys =
      if event.isFill = true ∧ event.symbol.string ∉ tracker.keys ∧
          tracker.slots.length < maxSymbols then tracker.keys ++ [event.symbol.string]
      else tracker.keys := by
  unfold applyEvent
  by_cases isFill : event.isFill = true
  · rw [if_pos isFill, SlotTable.keys_upsert, key_applyFill_zeroed]
    simp [isFill]
  · rw [if_neg isFill, if_neg (fun all => isFill all.1)]

theorem fillSymbols_append (events more : List OrderEvent) :
    fillSymbols (events ++ more) = fillSymbols events ++ fillSymbols more := by
  simp [fillSymbols]

/-- The tracker's keys are the first symbols that were filled. -/
theorem keys_project (events : List OrderEvent) :
    (project arith events).keys = firstComers maxSymbols (fillSymbols events) := by
  apply SlotTable.keys_foldl_empty
  · intro tracker event served
    rw [keys_applyEvent, if_pos served]
  · intro tracker event turnedAway
    rw [keys_applyEvent, if_neg turnedAway]

/-- A slot's symbol is NUL from its end on: it was copied when the slot was taken, and no fill
writes it again. -/
theorem padded_of_mem_project {events : List OrderEvent} {position : Position}
    (member : position ∈ (project arith events).slots) : position.symbol.Padded := by
  induction events using List.reverseRecOn generalizing position with
  | nil => exact absurd member List.not_mem_nil
  | append_singleton earlier event ih =>
      rw [project, List.foldl_append] at member
      obtain old | ⟨_, before, origin, rfl⟩ := mem_applyEvent member
      · exact ih old
      · rw [Position.symbol_applyFill]
        obtain old | rfl := origin
        · exact ih old
        · exact CharArray.padded_strncpy _ 8

end PositionTracker

namespace OrderManager

variable (arith : Arithmetic)

/-- The ids that `NewOrder` events bring, in order. -/
def openedIds (events : List OrderEvent) : List (List UInt8) :=
  (events.filter fun event => event.type = .newOrder).map fun event => event.orderId.string

theorem openedIds_append (events more : List OrderEvent) :
    openedIds (events ++ more) = openedIds events ++ openedIds more := by
  simp [openedIds]

/-- The manager's keys are the first ids that orders were opened under. -/
theorem keys_project (events : List OrderEvent) :
    (project arith events).keys = firstComers maxOrders (openedIds events) := by
  apply SlotTable.keys_foldl_empty
  · intro orders event served
    rw [keys_applyEvent, if_pos (by simpa [orderCount] using served)]
  · intro orders event turnedAway
    rw [keys_applyEvent, if_neg (by simpa [orderCount] using turnedAway)]

/-- No event changes the id of the slot it rewrites. -/
theorem orderId_rewrite (event : OrderEvent) (order : Order) :
    (rewrite arith event order).orderId = order.orderId := by
  unfold rewrite
  split <;> rfl

/-- So a slot's id stays as it was copied, NUL from its end on. -/
theorem padded_of_mem_project {events : List OrderEvent} {order : Order}
    (member : order ∈ (project arith events).slots) : order.orderId.Padded := by
  induction events using List.reverseRecOn generalizing order with
  | nil => exact absurd member List.not_mem_nil
  | append_singleton earlier event ih =>
      rw [project, List.foldl_append] at member
      obtain old | ⟨before, found, rfl⟩ | ⟨_, rfl⟩ := mem_applyEvent member
      · exact ih old
      · rw [orderId_rewrite]
        exact ih (SlotTable.find?_eq_some_iff.mp found).1
      · exact CharArray.padded_strncpy _ 8

end OrderManager

/-- The slots in use hold the first keys that came, padded and all different, in the order in
which they came. Later events move none of them, and a search finds the slot of its key. -/
theorem slots_first_come (arith : Arithmetic) (events more : List OrderEvent) :
    (let tracker := PositionTracker.project arith events
     tracker.keys.Nodup ∧ (∀ position ∈ tracker.slots, position.symbol.Padded) ∧
     tracker.keys = firstComers maxSymbols (PositionTracker.fillSymbols events) ∧
     tracker.symbolCount =
       min maxSymbols (firstMentions (PositionTracker.fillSymbols events)).length ∧
     tracker.keys <+: (PositionTracker.project arith (events ++ more)).keys ∧
     ∀ sym, IsKey sym →
       (∀ position, tracker.get sym = some position ↔
         position ∈ tracker.slots ∧ position.key = sym.chars) ∧
       (tracker.get sym = none ↔ sym.chars ∉ tracker.keys)) ∧
    (let orders := OrderManager.project arith events
     orders.keys.Nodup ∧ (∀ order ∈ orders.slots, order.orderId.Padded) ∧
     orders.keys = firstComers maxOrders (OrderManager.openedIds events) ∧
     orders.orderCount = min maxOrders (firstMentions (OrderManager.openedIds events)).length ∧
     orders.keys <+: (OrderManager.project arith (events ++ more)).keys ∧
     ∀ oid, IsKey oid →
       (∀ order, orders.find oid = some order ↔ order ∈ orders.slots ∧ order.key = oid.chars) ∧
       (orders.find oid = none ↔ oid.chars ∉ orders.keys)) := by
  constructor
  · intro tracker
    have keys : tracker.keys = firstComers maxSymbols (PositionTracker.fillSymbols events) :=
      PositionTracker.keys_project arith events
    refine ⟨tracker.distinct, fun _ => PositionTracker.padded_of_mem_project arith, keys, ?_, ?_,
      fun sym isKey => ?_⟩
    · rw [PositionTracker.symbolCount, ← SlotTable.length_keys, keys, firstComers, List.length_take]
    · rw [keys, PositionTracker.keys_project, PositionTracker.fillSymbols_append]
      exact firstComers_prefix_append _ _ _
    · rw [PositionTracker.get_eq_find?, isKey.fieldKey_eq]
      exact ⟨fun _ => SlotTable.find?_eq_some_iff, SlotTable.find?_eq_none_iff_keys⟩
  · intro orders
    have keys : orders.keys = firstComers maxOrders (OrderManager.openedIds events) :=
      OrderManager.keys_project arith events
    refine ⟨orders.distinct, fun _ => OrderManager.padded_of_mem_project arith, keys, ?_, ?_,
      fun oid isKey => ?_⟩
    · rw [OrderManager.orderCount, ← SlotTable.length_keys, keys, firstComers, List.length_take]
    · rw [keys, OrderManager.keys_project, OrderManager.openedIds_append]
      exact firstComers_prefix_append _ _ _
    · rw [OrderManager.find_eq_find?, isKey.fieldKey_eq]
      exact ⟨fun _ => SlotTable.find?_eq_some_iff, SlotTable.find?_eq_none_iff_keys⟩

/-- A search for `AAPL` among two symbols, before more are traded. -/
theorem slots_first_come_found :
    let sym := StringView.ofList (ascii "AAPL")
    let tracker := PositionTracker.project .wrapping interleavedFills
    tracker.keys = [ascii "AAPL", ascii "MSFT"] ∧
      ∀ position, tracker.get sym = some position ↔
        position ∈ tracker.slots ∧ position.key = sym.chars := by
  intro sym tracker
  have isKey : IsKey sym := ⟨by decide, .inr (by decide)⟩
  obtain ⟨_, _, keys, _, _, lookup⟩ := (slots_first_come .wrapping interleavedFills []).1
  exact ⟨keys.trans (by decide +kernel), (lookup sym isKey).1⟩

end Hft
