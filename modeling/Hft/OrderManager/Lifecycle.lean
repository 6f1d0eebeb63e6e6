import Hft.OrderManager

/-!
# The life of an order

The documented diagram only has arrows forward, out of `pending` and `partiallyFilled`.
The handlers do not look at the state they find: a fill, a cancel, a reject or an amend is
written over whatever is there. `Expects` says which events an order takes forward all
the same, and `lifecycle_forward` that a run of such events never leaves the diagram.
-/

namespace Hft

open Logical

/-- The arrows of the documented diagram. -/
inductive OrderState.Edge : OrderState → OrderState → Prop where
  | pending_partiallyFilled : Edge .pending .partiallyFilled
  | pending_filled : Edge .pending .filled
  | pending_cancelled : Edge .pending .cancelled
  | pending_rejected : Edge .pending .rejected
  | partiallyFilled_filled : Edge .partiallyFilled .filled
  | partiallyFilled_cancelled : Edge .partiallyFilled .cancelled

namespace Order

/-- What is final about a terminal order: state, quantities and average price. -/
def outcome (order : Order) : OrderState × Int × Int × Int :=
  (order.state, order.originalQty, order.filledQty, order.avgFillPrice)

/-- A slot moved along the diagram or not at all, and a terminal one kept its outcome. -/
structure Forward (before after : Order) : Prop where
  along : after.state = before.state ∨ before.state.Edge after.state
  final : before.isOpen = false → after.outcome = before.outcome

/-- The events an order in its present state has to expect. -/
def Expects (order : Order) (event : OrderEvent) : Prop :=
  match event.type with
  | .newOrder => False
  | .partialFill => order.isOpen = true
  | .fullFill => order.isOpen = true
  | .cancel => order.isOpen = true ∨ order.state = .cancelled
  | .reject => order.state = .pending ∨ order.state = .rejected
  -- An amend that names no new quantity leaves a terminal order's outcome alone.
  | .amend => order.isOpen = true ∨ event.qty ≤ 0 ∨ event.qty = order.originalQty
  | .unset => True

theorem Forward.refl (order : Order) : order.Forward order := ⟨.inl rfl, fun _ => rfl⟩

theorem isOpen_eq_of_outcome_eq {left right : Order} (same : left.outcome = right.outcome) :
    left.isOpen = right.isOpen := by
  simp only [outcome, Prod.mk.injEq] at same
  rw [isOpen, isOpen, same.1]

theorem state_fill (arith : Arithmetic) (event : OrderEvent) (order : Order) :
    (order.fill arith event).state = .filled ∨
      (order.fill arith event).state = .partiallyFilled := by
  unfold fill
  exact ite_eq_or_eq _ _ _

/-- A fill moves an open order forward, and nothing but a filled order takes a late fill
without leaving the diagram. -/
theorem forward_fill_iff (arith : Arithmetic) (event : OrderEvent) {order : Order}
    (notFilled : order.state ≠ .filled) :
    order.Forward (order.fill arith event) ↔ order.isOpen = true := by
  constructor
  · intro forward
    by_contra closed
    rw [Bool.not_eq_true] at closed
    have same := congrArg Prod.fst (forward.final closed)
    simp only [outcome] at same
    obtain filled | filled := state_fill arith event order
    · exact notFilled (same.symm.trans filled)
    · rw [isOpen, ← same, filled] at closed
      cases closed
  · intro isOpen
    refine ⟨?_, fun closed => by rw [isOpen] at closed; cases closed⟩
    obtain filled | filled := state_fill arith event order <;> rw [filled]
    · cases state : order.state <;> simp [Order.isOpen, state] at isOpen
      · exact .inr .pending_filled
      · exact .inr .partiallyFilled_filled
    · cases state : order.state <;> simp [Order.isOpen, state] at isOpen
      · exact .inr .pending_partiallyFilled
      · exact .inl rfl

theorem forward_cancel_iff (event : OrderEvent) (order : Order) :
    order.Forward (order.cancel event) ↔ order.isOpen = true ∨ order.state = .cancelled := by
  constructor
  · rintro ⟨along, final⟩
    cases state : order.state <;> simp_all [cancel, isOpen, outcome]
  · intro expected
    refine ⟨?_, fun closed => ?_⟩
    · cases state : order.state <;> simp [isOpen, state] at expected
      · exact .inr .pending_cancelled
      · exact .inr .partiallyFilled_cancelled
      · exact .inl rfl
    · rw [closed] at expected
      simp [outcome, cancel, expected.resolve_left (by simp)]

theorem forward_reject_iff (event : OrderEvent) (order : Order) :
    order.Forward (order.reject event) ↔ order.state = .pending ∨ order.state = .rejected := by
  constructor
  · rintro ⟨along, final⟩
    cases state : order.state with
    | pending => exact .inl rfl
    | partiallyFilled =>
        rw [state] at along
        obtain same | edge := along
        · cases same
        · cases edge
    | filled => simp [reject, isOpen, outcome, state] at final
    | cancelled => simp [reject, isOpen, outcome, state] at final
    | rejected => exact .inr rfl
  · intro expected
    refine ⟨?_, fun closed => ?_⟩
    · obtain state | state := expected <;> rw [state]
      · exact .inr .pending_rejected
      · exact .inl rfl
    · obtain state | state := expected
      · simp [isOpen, state] at closed
      · simp [outcome, reject, state]

theorem forward_amend_iff (event : OrderEvent) (order : Order) :
    order.Forward (order.amend event) ↔
      order.isOpen = true ∨ event.qty ≤ 0 ∨ event.qty = order.originalQty := by
  constructor
  · rintro ⟨_, final⟩
    by_contra unexpected
    push Not at unexpected
    obtain ⟨closed, positive, differs⟩ := unexpected
    have same := final (Bool.not_eq_true _ ▸ closed)
    simp [outcome, amend, positive] at same
    exact differs same
  · intro expected
    refine ⟨.inl rfl, fun closed => ?_⟩
    obtain isOpen | nothing | same := expected
    · rw [isOpen] at closed
      cases closed
    · simp [outcome, amend, not_lt.mpr nothing]
    · simp [outcome, amend, same]

/-- An expected event moves an order forward. Nothing else does, except that a filled
order may happen to be left alone by a fill of no shares. -/
theorem forward_rewrite_iff (arith : Arithmetic) {event : OrderEvent} {order : Order}
    (notNew : event.type ≠ .newOrder) (notRefill : event.isFill = true → order.state ≠ .filled) :
    order.Forward (OrderManager.rewrite arith event order) ↔ order.Expects event := by
  unfold OrderManager.rewrite Expects
  cases type : event.type with
  | newOrder => exact absurd type notNew
  | partialFill =>
      exact forward_fill_iff arith event (notRefill (by simp [OrderEvent.isFill, type]))
  | fullFill =>
      exact forward_fill_iff arith event (notRefill (by simp [OrderEvent.isFill, type]))
  | cancel => exact forward_cancel_iff event order
  | reject => exact forward_reject_iff event order
  | amend => exact forward_amend_iff event order
  | unset => exact iff_of_true (.refl order) trivial

theorem Expects.forward {event : OrderEvent} {order : Order} (expected : order.Expects event)
    (arith : Arithmetic) : order.Forward (OrderManager.rewrite arith event order) := by
  apply (forward_rewrite_iff arith _ _).mpr expected
  · intro isNew
    simp [Expects, isNew] at expected
  · intro isFill filled
    cases type : event.type <;> simp [OrderEvent.isFill, type] at isFill <;>
      simp [Expects, type, isOpen, filled] at expected

end Order

namespace OrderManager

variable {arith : Arithmetic} {orders : OrderManager}

/-- A sequence of events, applied one after the other. -/
def applyAll (arith : Arithmetic) (orders : OrderManager) (events : List OrderEvent) :
    OrderManager :=
  events.foldl (applyEvent arith) orders

/-- Every event of a sequence meets a condition on the table it finds. -/
def Along (arith : Arithmetic) (meets : OrderManager → OrderEvent → Prop) (orders : OrderManager)
    (events : List OrderEvent) : Prop :=
  ∀ earlier event later, events = earlier ++ event :: later →
    meets (orders.applyAll arith earlier) event

/-- A `NewOrder` brings an id that has no slot. -/
def Fresh (orders : OrderManager) (event : OrderEvent) : Prop :=
  event.type = .newOrder → orders.find? event.orderId.string = none

/-- The order an event addresses, if there is one, expects it. -/
def Conforms (orders : OrderManager) (event : OrderEvent) : Prop :=
  ∀ order, orders.find? event.orderId.string = some order → order.Expects event

/-- The promise of the diagram over a whole sequence: each step moves each order along an
arrow or not at all, and what is terminal after some of the events has the same outcome
after all of them. -/
structure StrictlyForward (arith : Arithmetic) (orders : OrderManager)
    (events : List OrderEvent) : Prop where
  along : ∀ earlier event later, events = earlier ++ event :: later →
    ∀ oid order, (orders.applyAll arith earlier).find? oid = some order →
      ∃ order', (orders.applyAll arith (earlier ++ [event])).find? oid = some order' ∧
        (order'.state = order.state ∨ order.state.Edge order'.state)
  final : ∀ earlier later, events = earlier ++ later →
    ∀ oid order, (orders.applyAll arith earlier).find? oid = some order → order.isOpen = false →
      ∃ order', (orders.applyAll arith events).find? oid = some order' ∧
        order'.outcome = order.outcome

theorem applyAll_append (arith : Arithmetic) (orders : OrderManager)
    (earlier later : List OrderEvent) :
    orders.applyAll arith (earlier ++ later) =
      (orders.applyAll arith earlier).applyAll arith later :=
  List.foldl_append

theorem along_nil (arith : Arithmetic) (meets : OrderManager → OrderEvent → Prop)
    (orders : OrderManager) : Along arith meets orders [] := by
  intro earlier event later split
  simp at split

theorem along_cons {meets : OrderManager → OrderEvent → Prop} {event : OrderEvent}
    {rest : List OrderEvent} :
    Along arith meets orders (event :: rest) ↔
      meets orders event ∧ Along arith meets (orders.applyEvent arith event) rest := by
  constructor
  · intro each
    refine ⟨each [] event rest rfl, fun earlier next later split => ?_⟩
    exact each (event :: earlier) next later (by rw [split]; rfl)
  · rintro ⟨head, tail⟩ earlier next later split
    cases earlier with
    | nil =>
        cases split
        exact head
    | cons first earlier =>
        cases split
        exact tail earlier next later rfl

theorem Along.suffix {meets : OrderManager → OrderEvent → Prop} {earlier later : List OrderEvent}
    (each : Along arith meets orders (earlier ++ later)) :
    Along arith meets (orders.applyAll arith earlier) later := by
  intro before event after split
  rw [← applyAll_append]
  exact each (earlier ++ before) event after (by rw [split, List.append_assoc])

/-- An expected event moves every order in the table forward. -/
theorem Conforms.forward {event : OrderEvent} (conforms : orders.Conforms event)
    (arith : Arithmetic) {oid : List UInt8} {order : Order}
    (found : orders.find? oid = some order) :
    ∃ order', (orders.applyEvent arith event).find? oid = some order' ∧ order.Forward order' := by
  by_cases addressed : oid = event.orderId.string
  · subst addressed
    exact ⟨_, find?_applyEvent_self arith orders found, (conforms order found).forward arith⟩
  · rw [find?_applyEvent_of_ne arith orders addressed]
    exact ⟨order, found, .refl order⟩

/-- Expected events leave a terminal order's outcome alone, however many follow. -/
theorem outcome_final {events : List OrderEvent} (each : Along arith Conforms orders events)
    {oid : List UInt8} {order : Order} (found : orders.find? oid = some order)
    (closed : order.isOpen = false) :
    ∃ order', (orders.applyAll arith events).find? oid = some order' ∧
      order'.outcome = order.outcome := by
  induction events generalizing orders order with
  | nil => exact ⟨order, found, rfl⟩
  | cons event rest ih =>
      obtain ⟨conforms, remaining⟩ := along_cons.mp each
      obtain ⟨next, nextFound, forward⟩ := conforms.forward arith found
      have same := forward.final closed
      obtain ⟨last, lastFound, kept⟩ := ih remaining nextFound
        ((Order.isOpen_eq_of_outcome_eq same).trans closed)
      exact ⟨last, lastFound, kept.trans same⟩

/-- Every sequence of events whose orders expect them keeps to the diagram. -/
theorem lifecycle_forward (arith : Arithmetic) {orders : OrderManager} {events : List OrderEvent}
    (each : Along arith Conforms orders events) : StrictlyForward arith orders events where
  along := by
    rintro earlier event later rfl oid order found
    obtain ⟨order', found', forward⟩ :=
      (each earlier event later rfl).forward arith found
    rw [applyAll_append]
    exact ⟨order', found', forward.along⟩
  final := by
    rintro earlier later rfl oid order found closed
    rw [applyAll_append]
    exact outcome_final each.suffix found closed

/-- The events of one order, by type. -/
def eventOf (type : EventType) : OrderEvent :=
  { makeFill (StringView.ofList (ascii "AAPL")) .buy 60 175000000 (StringView.ofList (ascii "O1"))
      true with
    type := type
    qty := 100 }

/-- Opened, partly filled, amended and cancelled. -/
theorem lifecycle_forward_in_order :
    StrictlyForward .wrapping initial
      [eventOf .newOrder, eventOf .partialFill, eventOf .amend, eventOf .cancel] := by
  apply lifecycle_forward
  refine along_cons.mpr ⟨?_, along_cons.mpr ⟨?_, along_cons.mpr ⟨?_, along_cons.mpr ⟨?_,
    along_nil _ _ _⟩⟩⟩⟩
  · intro order found
    cases found
  · intro order found
    cases found
    exact rfl
  · intro order found
    cases found
    exact .inl rfl
  · intro order found
    cases found
    exact .inl rfl

/-- A fill that crosses a cancel on the wire reopens the cancelled order. -/
theorem late_fill_reopens :
    ¬∀ (orders : OrderManager) (events : List OrderEvent),
      Along .wrapping Fresh orders events → StrictlyForward .wrapping orders events := by
  intro always
  have fresh : Along .wrapping Fresh initial
      [eventOf .newOrder, eventOf .cancel, eventOf .partialFill] := by
    refine along_cons.mpr ⟨fun _ => rfl, along_cons.mpr ⟨?_, along_cons.mpr ⟨?_, along_nil _ _ _⟩⟩⟩
    · intro isNew
      cases isNew
    · intro isNew
      cases isNew
  obtain ⟨order, found, outcome⟩ := (always initial _ fresh).final
    [eventOf .newOrder, eventOf .cancel] [eventOf .partialFill] rfl (ascii "O1") _ rfl rfl
  cases found
  cases outcome

end OrderManager

end Hft
