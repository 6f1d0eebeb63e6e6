import Hft.OrderManager.Lifecycle
import Hft.Projections

/-!
# Quantities and states that agree

Five handlers write the quantities or the state of an order, and one of them,
`handle_fill`, derives the state from the quantities it leaves. An amend changes the
quantity an order was opened with and keeps the state: an open order can end up filled
beyond its new quantity, and a filled one with something left. `amends_keep_iff` shows
that nothing else can take the two apart.
-/

namespace Hft

open Logical

namespace Order

/-- The quantities an order shows agree with its state, on exact integers. -/
structure Consistent (order : Order) : Prop where
  openRemains : order.isOpen = true →
    0 < order.remainingQty .exact ∧ order.remainingQty .exact ≤ order.originalQty
  filledDone : order.state = .filled → order.originalQty ≤ order.filledQty
  contributes : order.isOpen = true → ∀ (sym : StringView) (exposure : Int),
    order.symbol.string = fieldKey sym →
      0 < order.side.sign * (OrderManager.addExposure .exact sym exposure order - exposure)

/-- An amend that leaves room for what an open order has filled, and none for more on a
filled order. -/
def KeepsQty (order : Order) (event : OrderEvent) : Prop :=
  event.type = .amend → 0 < event.qty →
    (order.isOpen = true → order.filledQty < event.qty) ∧
    (order.state = .filled → event.qty ≤ order.filledQty)

/-- The sign of an order's contribution is a matter of what remains. -/
theorem addExposure_exact {order : Order} (isOpen : order.isOpen = true) {sym : StringView}
    (onSymbol : order.symbol.string = fieldKey sym) (exposure : Int) :
    OrderManager.addExposure .exact sym exposure order =
      exposure + order.side.sign * (order.originalQty - order.filledQty) := by
  have same : strncmp order.symbol.pointer sym.data 8 = 0 := strncmp_eq_zero_iff.mpr onSymbol
  unfold OrderManager.addExposure Side.sign
  simp only [isOpen, same, remainingQty, Arithmetic.exact]
  split <;> simp_all

/-- What is asked of the quantities alone. -/
theorem consistent_iff {order : Order} :
    order.Consistent ↔
      (order.isOpen = true → 0 ≤ order.filledQty ∧ order.filledQty < order.originalQty) ∧
      (order.state = .filled → order.originalQty ≤ order.filledQty) := by
  have remaining : order.remainingQty .exact = order.originalQty - order.filledQty := rfl
  constructor
  · rintro ⟨openRemains, filledDone, _⟩
    refine ⟨fun isOpen => ?_, filledDone⟩
    have remains := openRemains isOpen
    omega
  · rintro ⟨openRemains, filledDone⟩
    refine ⟨fun isOpen => ?_, filledDone, fun isOpen sym exposure onSymbol => ?_⟩
    · have remains := openRemains isOpen
      omega
    · have remains := openRemains isOpen
      rw [addExposure_exact isOpen onSymbol]
      unfold Side.sign
      split <;> omega

theorem consistent_opened (orderId : CharArray 8) {event : OrderEvent} (positive : 0 < event.qty) :
    (opened orderId event).Consistent :=
  consistent_iff.mpr ⟨fun _ => ⟨le_refl 0, positive⟩, fun filled => nomatch filled⟩

/-- The fill handler derives the state from what it leaves. -/
theorem consistent_fill {order : Order} (consistent : order.Consistent)
    (isOpen : order.isOpen = true) {event : OrderEvent} (positive : 0 < event.fillQty) :
    (order.fill .exact event).Consistent := by
  obtain ⟨nonneg, below⟩ := (consistent_iff.mp consistent).1 isOpen
  have booked : (order.fill .exact event).filledQty = order.filledQty + event.fillQty := rfl
  have asked : (order.fill .exact event).originalQty = order.originalQty := rfl
  have state : (order.fill .exact event).state =
      if order.originalQty - (order.filledQty + event.fillQty) ≤ 0 then .filled
      else .partiallyFilled := rfl
  apply consistent_iff.mpr
  rw [booked, asked]
  constructor
  · intro stillOpen
    by_cases done : order.originalQty - (order.filledQty + event.fillQty) ≤ 0
    · rw [if_pos done] at state
      simp [Order.isOpen, state] at stillOpen
    · omega
  · intro filled
    by_contra short
    rw [if_neg (by omega)] at state
    rw [state] at filled
    cases filled

/-- An amend keeps the two in step exactly when its quantity suits the state it finds. -/
theorem consistent_amend_iff {order : Order} (consistent : order.Consistent) {event : OrderEvent}
    (type : event.type = .amend) : (order.amend event).Consistent ↔ order.KeepsQty event := by
  obtain ⟨openRemains, filledDone⟩ := consistent_iff.mp consistent
  have sameState : (order.amend event).state = order.state := rfl
  have sameOpen : (order.amend event).isOpen = order.isOpen := rfl
  have sameFilled : (order.amend event).filledQty = order.filledQty := rfl
  have asked : (order.amend event).originalQty =
      if 0 < event.qty then event.qty else order.originalQty := rfl
  rw [consistent_iff, sameState, sameOpen, sameFilled, asked]
  unfold KeepsQty
  by_cases positive : 0 < event.qty
  · simp only [type, positive, if_true, forall_const]
    refine and_congr_left' ⟨fun remains isOpen => (remains isOpen).2, fun keeps isOpen => ?_⟩
    exact ⟨(openRemains isOpen).1, keeps isOpen⟩
  · simp only [positive, if_false, false_implies, implies_true, iff_true]
    exact ⟨openRemains, filledDone⟩

/-- What one event makes of an order whose state and quantities agree. -/
theorem consistent_rewrite_iff {order : Order} (consistent : order.Consistent) {event : OrderEvent}
    (sized : event.type = .newOrder → 0 < event.qty)
    (working : event.isFill = true → 0 < event.fillQty ∧ order.isOpen = true) :
    (OrderManager.rewrite .exact event order).Consistent ↔ order.KeepsQty event := by
  have unamended : event.type ≠ .amend → order.KeepsQty event :=
    fun other type => absurd type other
  have ended : ∀ state : OrderState, state = .cancelled ∨ state = .rejected → ∀ seq,
      ({ order with state := state, lastSeq := seq } : Order).Consistent := by
    intro state closed seq
    apply consistent_iff.mpr
    obtain rfl | rfl := closed <;> simp [Order.isOpen]
  unfold OrderManager.rewrite
  cases type : event.type with
  | newOrder => exact iff_of_true (consistent_opened _ (sized type)) (unamended (by simp [type]))
  | partialFill =>
      obtain ⟨positive, isOpen⟩ := working (by simp [OrderEvent.isFill, type])
      exact iff_of_true (consistent_fill consistent isOpen positive) (unamended (by simp [type]))
  | fullFill =>
      obtain ⟨positive, isOpen⟩ := working (by simp [OrderEvent.isFill, type])
      exact iff_of_true (consistent_fill consistent isOpen positive) (unamended (by simp [type]))
  | cancel => exact iff_of_true (ended .cancelled (.inl rfl) _) (unamended (by simp [type]))
  | reject => exact iff_of_true (ended .rejected (.inr rfl) _) (unamended (by simp [type]))
  | amend => exact consistent_amend_iff consistent type
  | unset => exact iff_of_true consistent (unamended (by simp [type]))

end Order

namespace OrderManager

variable {orders : OrderManager}

/-- Every order's state and quantities agree. -/
def AllConsistent (orders : OrderManager) : Prop := ∀ order ∈ orders.slots, order.Consistent

/-- New orders have a size, and fills have one and hit only open orders. Cancels, rejects
and amends are free. -/
structure Admits (orders : OrderManager) (event : OrderEvent) : Prop where
  sized : event.type = .newOrder → 0 < event.qty
  filled : event.isFill = true → 0 < event.fillQty ∧
    ∀ order, orders.find? event.orderId.string = some order → order.isOpen = true

/-- An amend's quantity suits the order it finds. -/
def AmendKeeps (orders : OrderManager) (event : OrderEvent) : Prop :=
  ∀ order, orders.find? event.orderId.string = some order → order.KeepsQty event

/-- One step: an admitted event keeps all orders consistent exactly when, being an amend, it
keeps the one it finds. -/
theorem allConsistent_applyEvent_iff (consistent : orders.AllConsistent) {event : OrderEvent}
    (admitted : orders.Admits event) :
    (orders.applyEvent .exact event).AllConsistent ↔ orders.AmendKeeps event := by
  have rewritten : ∀ order, orders.find? event.orderId.string = some order →
      ((rewrite .exact event order).Consistent ↔ order.KeepsQty event) := fun order found =>
    Order.consistent_rewrite_iff (consistent order (SlotTable.find?_eq_some_iff.mp found).1)
      admitted.sized fun isFill =>
        ⟨(admitted.filled isFill).1, (admitted.filled isFill).2 order found⟩
  constructor
  · intro after order found
    have slot := (SlotTable.find?_eq_some_iff.mp (find?_applyEvent_self .exact orders found)).1
    exact (rewritten order found).mp (after _ slot)
  · intro keeps slot member
    obtain before | ⟨order, found, rfl⟩ | ⟨isNew, rfl⟩ := mem_applyEvent member
    · exact consistent slot before
    · exact (rewritten order found).mpr (keeps order found)
    · exact Order.consistent_opened _ (admitted.sized isNew)

/-- Every table on the way through a sequence of events is consistent. -/
def AlwaysConsistent (orders : OrderManager) (events : List OrderEvent) : Prop :=
  ∀ earlier later, events = earlier ++ later → (orders.applyAll .exact earlier).AllConsistent

theorem alwaysConsistent_cons {event : OrderEvent} {rest : List OrderEvent} :
    orders.AlwaysConsistent (event :: rest) ↔
      orders.AllConsistent ∧ (orders.applyEvent .exact event).AlwaysConsistent rest := by
  constructor
  · intro always
    refine ⟨always [] (event :: rest) rfl, fun earlier later split => ?_⟩
    exact always (event :: earlier) later (by rw [split]; rfl)
  · rintro ⟨here, onward⟩ earlier later split
    cases earlier with
    | nil => exact here
    | cons first earlier =>
        cases split
        exact onward earlier later rfl

theorem AlwaysConsistent.start {events : List OrderEvent}
    (always : orders.AlwaysConsistent events) : orders.AllConsistent := always [] events rfl

/-- Along every admitted sequence, the orders stay consistent exactly when every amend keeps
the order it finds. -/
theorem alwaysConsistent_iff {events : List OrderEvent} (consistent : orders.AllConsistent)
    (admitted : Along .exact Admits orders events) :
    orders.AlwaysConsistent events ↔ Along .exact AmendKeeps orders events := by
  induction events generalizing orders with
  | nil =>
      refine iff_of_true (fun earlier later split => ?_) (along_nil _ _ _)
      rw [(List.append_eq_nil_iff.mp split.symm).1]
      exact consistent
  | cons event rest ih =>
      obtain ⟨here, onward⟩ := along_cons.mp admitted
      have step := allConsistent_applyEvent_iff consistent here
      rw [alwaysConsistent_cons, along_cons]
      constructor
      · rintro ⟨_, later⟩
        exact ⟨step.mp later.start, (ih later.start onward).mp later⟩
      · rintro ⟨keeps, later⟩
        exact ⟨consistent, (ih (step.mpr keeps) onward).mpr later⟩

/-- From an empty table, nothing but an amend can take quantities and state apart. -/
theorem amends_keep_iff {events : List OrderEvent}
    (admitted : Along .exact Admits initial events) :
    initial.AlwaysConsistent events ↔ Along .exact AmendKeeps initial events :=
  alwaysConsistent_iff (fun _ member => absurd member List.not_mem_nil) admitted

/-- An order for 100, filled with 60 and amended to a quantity. -/
def amendedTo (qty : Int) : List OrderEvent :=
  [eventOf .newOrder, eventOf .partialFill, { eventOf .amend with qty := qty }]

theorem admits_amendedTo (qty : Int) : Along .exact Admits initial (amendedTo qty) := by
  refine along_cons.mpr ⟨?_, along_cons.mpr ⟨?_, along_cons.mpr ⟨?_, along_nil _ _ _⟩⟩⟩
  · exact ⟨fun _ => by decide, fun isFill => (nomatch isFill)⟩
  · refine ⟨fun isNew => (nomatch isNew), fun _ => ⟨by decide, fun order found => ?_⟩⟩
    cases found
    rfl
  · exact ⟨fun isNew => (nomatch isNew), fun isFill => (nomatch isFill)⟩

/-- Amended to 80, the order keeps 20 to be filled. -/
theorem amends_keep_eighty : initial.AlwaysConsistent (amendedTo 80) := by
  refine (amends_keep_iff (admits_amendedTo 80)).mpr ?_
  refine along_cons.mpr ⟨?_, along_cons.mpr ⟨?_, along_cons.mpr ⟨?_, along_nil _ _ _⟩⟩⟩
  · exact fun order found => (nomatch found)
  · exact fun order _ isAmend => (nomatch isAmend)
  · intro order found
    cases found
    exact fun _ _ => ⟨fun _ => by decide, fun filled => (nomatch filled)⟩

/-- Amended to 50, it stays open with nothing left and 10 too many. -/
theorem amend_below_filled :
    ¬∀ events : List OrderEvent, Along .exact Admits initial events →
      initial.AlwaysConsistent events := by
  intro always
  have consistent := always (amendedTo 50) (admits_amendedTo 50) (amendedTo 50) [] rfl
  obtain ⟨order, found⟩ := Option.isSome_iff_exists.mp
    (show ((initial.applyAll .exact (amendedTo 50)).find? (ascii "O1")).isSome by decide +kernel)
  have remains := (consistent order (SlotTable.find?_eq_some_iff.mp found).1).openRemains
  cases found
  exact absurd (remains rfl).1 (by decide)

end OrderManager

end Hft
