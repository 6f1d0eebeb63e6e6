import Hft.Gateway.CancelAll
import Hft.Gateway.LogOrder
import Hft.Risk.Soundness

/-!
# What the order of the log decides

Nothing: two processes restarted on logs that retell each other give the same replies to every
call and cannot be told apart (`retold_indistinguishable`). The books are alike, not equal, since
their slots are in another order. What reads a whole book reads it in slot order: the exposure of
a symbol is a sum the machine takes modulo its width, so the order does not matter
(`openExposure_wrapping`), and the killswitch sends its messages in another order. It numbers
them as it sends them, so the same request may carry another request id: what is compared is
the message without it.
-/

namespace Hft

open Logical

/-- The machine's sum over the slots does not depend on their order. -/
theorem OrderManager.openExposure_eq_of_perm {left right : OrderManager}
    (perm : (left.slots.map Order.logged).Perm (right.slots.map Order.logged))
    (sym : StringView) : left.openExposure .wrapping sym = right.openExposure .wrapping sym := by
  have overLogged : ∀ orders : OrderManager, orders.totalOn (fieldKey sym) Order.pendingSigned =
      ((orders.slots.map Order.logged).map fun order =>
        if order.symbol.string = fieldKey sym then order.pendingSigned else 0).sum := by
    intro orders
    rw [List.map_map]
    rfl
  rw [openExposure_wrapping, openExposure_wrapping, overLogged, overLogged, (perm.map _).sum_eq]

namespace Gateway

/-! ## Calls -/

/-- A call of the process on its gateway, or a mark on the tracker. -/
inductive Call where
  | sendOrder (args : FIXGateway.SendArgs) (sessionFound : Bool)
  | fromApp (message : FIXGateway.InboundMessage)
  | onLogon
  | onLogout
  | markToMarket (sym : StringView) (mktPriceFp : Int)

/-- What the outside sees of a call. -/
inductive Reply where
  | sent (handed : Option NewOrderSingle) (result : Except Thrown (List UInt8))
  | returned
  | terminated

namespace FIXGateway

/-- A call at a clock reading: the reply, and the gateway if the process survives. -/
def perform (arith : Arithmetic) (gateway : FIXGateway) (call : Call) (now : Nat) :
    Reply × Option FIXGateway :=
  match call with
  | .sendOrder args sessionFound =>
      let outcome := gateway.sendOrder arith args now sessionFound
      (.sent outcome.handed outcome.result, some outcome.gateway)
  | .fromApp message =>
      match gateway.fromApp arith message now with
      | .returned after => (.returned, some after)
      | .terminated => (.terminated, none)
  | .onLogon => (.returned, some gateway.onLogon)
  | .onLogout => (.returned, some gateway.onLogout)
  | .markToMarket sym mktPriceFp =>
      (.returned,
        some { gateway with tracker := gateway.tracker.markToMarket arith sym mktPriceFp })

/-- Calls with their clock readings, one after the other, until one ends the process. -/
def performAll (arith : Arithmetic) :
    FIXGateway → List (Call × Nat) → List Reply × Option FIXGateway
  | gateway, [] => ([], some gateway)
  | gateway, (call, now) :: rest =>
      match gateway.perform arith call now with
      | (reply, none) => ([reply], none)
      | (reply, some after) =>
          let (replies, last) := after.performAll arith rest
          (reply :: replies, last)

/-- The same gateway, with its books in another order and its log under other stamps. -/
structure Alike (left right : FIXGateway) : Prop where
  size : left.log.size = right.log.size
  tracker : left.tracker.Alike Position.unstamped right.tracker
  orders : left.orders.Alike Order.logged right.orders
  limits : left.limits = right.limits
  connected : left.connected = right.connected
  orderCounter : left.orderCounter = right.orderCounter

namespace Alike

variable {left right : FIXGateway}

theorem openExposure_eq (alike : Alike left right) (sym : StringView) :
    left.orders.openExposure .wrapping sym = right.orders.openExposure .wrapping sym :=
  OrderManager.openExposure_eq_of_perm (alike.orders.perm OrderManager.key_eq_of_logged_eq) sym

theorem get_eq (alike : Alike left right) (sym : StringView) :
    (left.tracker.get sym).map Position.unstamped =
      (right.tracker.get sym).map Position.unstamped := by
  rw [PositionTracker.get_eq_find?, PositionTracker.get_eq_find?]
  exact alike.tracker (fieldKey sym)

/-- What is read off a position without its stamp reads the same. -/
theorem map_get_eq (alike : Alike left right) {γ : Type} (figure : Position → γ)
    (unseen : ∀ position, figure position.unstamped = figure position) (sym : StringView) :
    (left.tracker.get sym).map figure = (right.tracker.get sym).map figure := by
  have same := congrArg (Option.map figure) (alike.get_eq sym)
  simpa only [Option.map_map, Function.comp_def, unseen] using same

theorem check_eq (alike : Alike left right) (sym : StringView) (side : Side)
    (qty priceFp : Int) :
    RiskChecker.check .wrapping left.limits sym side qty priceFp left.tracker left.orders =
      RiskChecker.check .wrapping right.limits sym side qty priceFp right.tracker
        right.orders := by
  have held : ∀ tracker : PositionTracker, tracker.netQty sym =
      ((tracker.get sym).map Position.netQty).getD 0 := by
    intro tracker
    unfold PositionTracker.netQty
    cases tracker.get sym <;> rfl
  have net : left.tracker.netQty sym = right.tracker.netQty sym := by
    rw [held, held, alike.map_get_eq Position.netQty fun _ => rfl]
  have realized := alike.map_get_eq Position.realizedPnl (fun _ => rfl) sym
  simp only [RiskChecker.check, net, realized, alike.openExposure_eq, alike.limits]

theorem accepts_iff (alike : Alike left right) (args : SendArgs) :
    left.Accepts .wrapping args ↔ right.Accepts .wrapping args := by
  unfold Accepts
  rw [alike.connected, alike.check_eq]

/-! ### One call -/

theorem orders_applyEvent (alike : Alike left right) (arith : Arithmetic) (event : OrderEvent) :
    (left.orders.applyEvent arith event).Alike Order.logged
      (right.orders.applyEvent arith event) :=
  alike.orders.of_event (OrderManager.projects arith) (OrderManager.respects arith)
    OrderManager.key_eq_of_logged_eq rfl

theorem tracker_applyEvent (alike : Alike left right) (arith : Arithmetic) (event : OrderEvent) :
    (left.tracker.applyEvent arith event).Alike Position.unstamped
      (right.tracker.applyEvent arith event) :=
  alike.tracker.of_event (PositionTracker.projects arith) (PositionTracker.respects arith)
    PositionTracker.key_eq_of_unstamped_eq rfl

theorem newOrderEvent_eq (alike : Alike left right) (args : SendArgs) :
    left.newOrderEvent args = right.newOrderEvent args := by
  rw [newOrderEvent, alike.orderCounter, newOrderEvent]

/-- `send_order` hands over the same message and returns the same id or exception. -/
theorem sendOrder (alike : Alike left right) (args : SendArgs) (now now' : Nat)
    (sessionFound : Bool) :
    (left.sendOrder .wrapping args now sessionFound).handed =
        (right.sendOrder .wrapping args now' sessionFound).handed ∧
      (left.sendOrder .wrapping args now sessionFound).result =
        (right.sendOrder .wrapping args now' sessionFound).result ∧
      Alike (left.sendOrder .wrapping args now sessionFound).gateway
        (right.sendOrder .wrapping args now' sessionFound).gateway := by
  have accepts := alike.accepts_iff args
  have counter : left.nextOrderId.2.orderCounter = right.nextOrderId.2.orderCounter := by
    simp only [nextOrderId, alike.orderCounter]
  obtain ⟨refused, sent⟩ | ⟨accepted, full, sent⟩ | ⟨log, accepted, room, events, sent⟩ :=
      sendOrder_cases .wrapping left args now sessionFound <;>
    obtain ⟨refused', sent'⟩ | ⟨accepted', full', sent'⟩ |
        ⟨log', accepted', room', events', sent'⟩ :=
      sendOrder_cases .wrapping right args now' sessionFound
  case inl.inl => exact sent ▸ sent' ▸ ⟨rfl, rfl, alike⟩
  case inr.inl.inr.inl =>
    rw [sent, sent']
    exact ⟨rfl, rfl, alike.size, alike.tracker, alike.orders, alike.limits, alike.connected,
      counter⟩
  case inr.inr.inr.inr =>
    have size : log.size = log'.size := by
      rw [EventLog.size, EventLog.size, events, events', List.length_append, List.length_append]
      exact congrArg (· + 1) alike.size
    rw [sent, sent', alike.newOrderEvent_eq, alike.orderCounter]
    exact ⟨rfl, rfl, size, alike.tracker, alike.orders_applyEvent .wrapping _, alike.limits,
      alike.connected, counter⟩
  all_goals
    have := alike.size
    first
    | exact absurd (accepts.mp accepted) refused'
    | exact absurd (accepts.mpr accepted') refused
    | omega

/-- Both logs take the event or both are full. -/
theorem book (alike : Alike left right) (arith : Arithmetic) (event : OrderEvent)
    (now now' : Nat) :
    (∃ after after', left.book arith now event = .ok after ∧
      right.book arith now' event = .ok after' ∧ Alike after after') ∨
    ∃ thrown, left.book arith now event = .error thrown ∧
      right.book arith now' event = .error thrown := by
  by_cases room : left.log.size < maxEvents
  · have room' : right.log.size < maxEvents := alike.size ▸ room
    obtain ⟨after, booked⟩ := exists_book_of_room arith room now event
    obtain ⟨after', booked'⟩ := exists_book_of_room arith room' now' event
    refine .inl ⟨after, after', booked, booked', ?_⟩
    obtain ⟨log, _, events, rfl⟩ := book_eq_ok_iff.mp booked
    obtain ⟨log', _, events', rfl⟩ := book_eq_ok_iff.mp booked'
    have size : log.size = log'.size := by
      rw [EventLog.size, EventLog.size, events, events', List.length_append, List.length_append]
      exact congrArg (· + 1) alike.size
    exact ⟨size, alike.tracker_applyEvent arith event, alike.orders_applyEvent arith event,
      alike.limits, alike.connected, alike.orderCounter⟩
  · have full := Nat.not_lt.mp room
    have full' : maxEvents ≤ right.log.size := alike.size ▸ full
    exact .inr ⟨_, by rw [FIXGateway.book, EventLog.append_of_full full],
      by rw [FIXGateway.book, EventLog.append_of_full full']⟩

/-- A message ends both processes or neither. -/
theorem fromApp (alike : Alike left right) (arith : Arithmetic) (message : InboundMessage)
    (now now' : Nat) :
    (∃ after after', left.fromApp arith message now = .returned after ∧
      right.fromApp arith message now' = .returned after' ∧ Alike after after') ∨
    (left.fromApp arith message now = .terminated ∧
      right.fromApp arith message now' = .terminated) := by
  cases message with
  | other msgType => exact .inr ⟨rfl, rfl⟩
  | executionReport report =>
      simp only [FIXGateway.fromApp, crack, onMessage]
      cases MessageTranslator.fromExecutionReport arith report with
      | error thrown => exact .inr ⟨rfl, rfl⟩
      | ok booked =>
          cases booked with
          | none => exact .inl ⟨left, right, rfl, rfl, alike⟩
          | some event =>
              obtain ⟨after, after', kept, kept', still⟩ | ⟨thrown, failed, failed'⟩ :=
                alike.book arith event now now'
              · exact .inl ⟨after, after', by simp [kept], by simp [kept'], still⟩
              · exact .inr ⟨by simp [failed], by simp [failed']⟩

/-- One call: the same reply, and gateways that are still alike. -/
theorem perform (alike : Alike left right) (call : Call) (now now' : Nat) :
    (left.perform .wrapping call now).1 = (right.perform .wrapping call now').1 ∧
      Option.Rel Alike (left.perform .wrapping call now).2
        (right.perform .wrapping call now').2 := by
  cases call with
  | sendOrder args sessionFound =>
      obtain ⟨handed, result, still⟩ := alike.sendOrder args now now' sessionFound
      exact ⟨congrArg₂ Reply.sent handed result, .some still⟩
  | fromApp message =>
      obtain ⟨after, after', returned, returned', still⟩ | ⟨ended, ended'⟩ :=
        alike.fromApp .wrapping message now now'
      · simp only [FIXGateway.perform, returned, returned', true_and]
        exact .some still
      · simp only [FIXGateway.perform, ended, ended', true_and]
        exact .none
  | onLogon =>
      exact ⟨rfl, .some ⟨alike.size, alike.tracker, alike.orders, alike.limits, rfl,
        alike.orderCounter⟩⟩
  | onLogout =>
      exact ⟨rfl, .some ⟨alike.size, alike.tracker, alike.orders, alike.limits, rfl,
        alike.orderCounter⟩⟩
  | markToMarket sym mktPriceFp =>
      have marked : (left.tracker.markToMarket .wrapping sym mktPriceFp).Alike Position.unstamped
          (right.tracker.markToMarket .wrapping sym mktPriceFp) := by
        refine alike.tracker.update (fun position position' same => ?_) _
        rw [PositionTracker.unstamped_mark, same, ← PositionTracker.unstamped_mark]
      exact ⟨rfl, .some ⟨alike.size, marked, alike.orders, alike.limits, alike.connected,
        alike.orderCounter⟩⟩

/-- Any number of them. -/
theorem performAll {calls calls' : List (Call × Nat)}
    (same : calls.map Prod.fst = calls'.map Prod.fst) (alike : Alike left right) :
    (left.performAll .wrapping calls).1 = (right.performAll .wrapping calls').1 ∧
      Option.Rel Alike (left.performAll .wrapping calls).2
        (right.performAll .wrapping calls').2 := by
  induction calls generalizing calls' left right with
  | nil =>
      rw [List.map_nil, eq_comm, List.map_eq_nil_iff] at same
      rw [same]
      exact ⟨rfl, .some alike⟩
  | cons timed rest ih =>
      cases calls' with
      | nil => cases same
      | cons timed' rest' =>
          obtain ⟨call, now⟩ := timed
          obtain ⟨call', now'⟩ := timed'
          simp only [List.map_cons, List.cons.injEq] at same
          obtain ⟨rfl, sameRest⟩ := same
          have step := alike.perform call now now'
          rw [FIXGateway.performAll, FIXGateway.performAll]
          cases done : left.perform .wrapping call now with
          | mk reply after =>
              cases done' : right.perform .wrapping call now' with
              | mk reply' after' =>
                  rw [done, done'] at step
                  obtain ⟨rfl, afterwards⟩ := step
                  cases afterwards with
                  | none => exact ⟨rfl, .none⟩
                  | some still =>
                      obtain ⟨replies, last⟩ := ih sameRest still
                      exact ⟨congrArg (reply :: ·) replies, last⟩

end Alike

/-! ## Two restarts -/

theorem Alike.start {limits : RiskLimits} {left right : EventLog}
    (retells : Retells left.events right.events) :
    Alike (start .wrapping limits left) (start .wrapping limits right) where
  size := by
    have same := (perm_of_orders retells.orders).length_eq
    rwa [List.length_map, List.length_map] at same
  tracker := retells.tracker_alike .wrapping
  orders := retells.orders_alike .wrapping
  limits := rfl
  connected := rfl
  orderCounter := rfl

/-- A cancel request but for its own number. -/
def unnumberedCancel (attempt : Attempt OrderCancelRequest) : OrderCancelRequest :=
  { attempt.message with clOrdId := [] }

/-- A closing order but for its own number. -/
def unnumberedOrder (attempt : Attempt NewOrderSingle) : NewOrderSingle :=
  { attempt.message with clOrdId := [] }

/-- No one who looks at either can tell which it is: the records, the exposures, the verdicts,
and what a killswitch would send, up to the order of its messages and the numbers that this
order gives them. -/
structure Indistinguishable (left right : FIXGateway) : Prop where
  positions : ∀ sym, (left.tracker.get sym).map Position.unstamped =
    (right.tracker.get sym).map Position.unstamped
  orders : ∀ oid, (left.orders.find oid).map Order.logged = (right.orders.find oid).map Order.logged
  exposure : ∀ sym, left.orders.openExposure .wrapping sym = right.orders.openExposure .wrapping sym
  verdict : ∀ sym side qty priceFp,
    RiskChecker.check .wrapping left.limits sym side qty priceFp left.tracker left.orders =
      RiskChecker.check .wrapping right.limits sym side qty priceFp right.tracker right.orders
  cancels : ∀ idPrefix sessionFound,
    ((Killswitch.cancelAll left.orders idPrefix sessionFound).map unnumberedCancel).Perm
      ((Killswitch.cancelAll right.orders idPrefix sessionFound).map unnumberedCancel)
  flattens : ∀ idPrefix sessionFound,
    ((Killswitch.flatten .wrapping left.tracker idPrefix sessionFound).map unnumberedOrder).Perm
      ((Killswitch.flatten .wrapping right.tracker idPrefix sessionFound).map unnumberedOrder)

theorem Alike.cancels {left right : FIXGateway} (alike : Alike left right)
    (idPrefix : List UInt8) (sessionFound : Nat → Bool) :
    ((Killswitch.cancelAll left.orders idPrefix sessionFound).map unnumberedCancel).Perm
      ((Killswitch.cancelAll right.orders idPrefix sessionFound).map unnumberedCancel) := by
  have asked : ∀ orders : OrderManager,
      (Killswitch.cancelAll orders idPrefix sessionFound).map unnumberedCancel =
        ((orders.slots.map Order.logged).filter Order.isOpen).map fun order =>
          { origClOrdId := order.orderId.string, clOrdId := [], symbol := order.symbol.string,
            side := sideField order.side } := by
    intro orders
    rw [Killswitch.cancelAll_eq_mapIdx, List.filter_map, List.map_map]
    refine map_mapIdx_eq_map ?_ _
    intro index order
    rfl
  rw [asked, asked]
  exact ((alike.orders.perm OrderManager.key_eq_of_logged_eq).filter _).map _

theorem Alike.flattens {left right : FIXGateway} (alike : Alike left right)
    (idPrefix : List UInt8) (sessionFound : Nat → Bool) :
    ((Killswitch.flatten .wrapping left.tracker idPrefix sessionFound).map unnumberedOrder).Perm
      ((Killswitch.flatten .wrapping right.tracker idPrefix sessionFound).map unnumberedOrder) := by
  have sent : ∀ tracker : PositionTracker,
      (Killswitch.flatten .wrapping tracker idPrefix sessionFound).map unnumberedOrder =
        ((tracker.slots.map Position.unstamped).filter fun position => !position.isFlat).map
          fun position => Killswitch.flattenOrder .wrapping position [] := by
    intro tracker
    rw [Killswitch.flatten_eq_mapIdx, List.filter_map, List.map_map]
    refine map_mapIdx_eq_map ?_ _
    intro index position
    rfl
  rw [sent, sent]
  exact ((alike.tracker.perm PositionTracker.key_eq_of_unstamped_eq).filter _).map _

theorem Alike.indistinguishable {left right : FIXGateway} (alike : Alike left right) :
    Indistinguishable left right where
  positions := alike.get_eq
  orders oid := by
    rw [OrderManager.find_eq_find?, OrderManager.find_eq_find?]
    exact alike.orders (fieldKey oid)
  exposure := alike.openExposure_eq
  verdict := alike.check_eq
  cancels := alike.cancels
  flattens := alike.flattens

/-- Restarted on logs that tell each order and each symbol the same story, two processes give
the same replies to the same calls, at whatever times they come, end at the same call if they
end, and are indistinguishable until then. -/
theorem retold_indistinguishable (limits : RiskLimits) {left right : EventLog}
    (retells : Retells left.events right.events) {calls calls' : List (Call × Nat)}
    (same : calls.map Prod.fst = calls'.map Prod.fst) :
    ((start .wrapping limits left).performAll .wrapping calls).1 =
        ((start .wrapping limits right).performAll .wrapping calls').1 ∧
      Option.Rel Indistinguishable ((start .wrapping limits left).performAll .wrapping calls).2
        ((start .wrapping limits right).performAll .wrapping calls').2 := by
  have alike : Alike (start .wrapping limits left) (start .wrapping limits right) :=
    Alike.start retells
  obtain ⟨replies, last⟩ := alike.performAll same
  refine ⟨replies, ?_⟩
  generalize (performAll _ _ calls).2 = after at last ⊢
  generalize (performAll _ _ calls').2 = after' at last ⊢
  cases last with
  | none => exact .none
  | some still => exact .some still.indistinguishable

/-- The gateway after its first order. -/
def firstPlaced : FIXGateway := (connectedGateway.sendOrder .wrapping sampleArgs 0 true).gateway

/-- The second order is logged before the first one's fill. -/
def placedFirst : EventLog :=
  ((firstPlaced.sendOrder .wrapping sampleArgs 1 true).gateway.delivered
    (filledReport (ascii "ORD0"))).log

/-- The fill is logged before the second order. -/
def filledFirst : EventLog :=
  ((firstPlaced.delivered (filledReport (ascii "ORD0"))).sendOrder .wrapping sampleArgs 2
    true).gateway.log

/-- What the log keeps of the first order's fill. -/
def firstFill : OrderEvent :=
  MessageTranslator.reportedEvent .wrapping (filledReport (ascii "ORD0")) .fullFill (ascii "AAPL")
    (ascii "ORD0") '1'

theorem retells_placedFirst : Retells placedFirst.events filledFirst.events := by
  have leftIs : placedFirst.events.map OrderEvent.unstamped =
      [connectedGateway.newOrderEvent sampleArgs] ++
        firstPlaced.newOrderEvent sampleArgs :: firstFill :: [] := rfl
  have rightIs : filledFirst.events.map OrderEvent.unstamped =
      [connectedGateway.newOrderEvent sampleArgs] ++
        firstFill :: firstPlaced.newOrderEvent sampleArgs :: [] := rfl
  exact Retells.swap leftIs rightIs (by decide +kernel) (by decide +kernel) (by decide +kernel)
    (by decide +kernel)

/-- Whichever thread was faster, a third order gets the same reply after the restart. -/
theorem retold_indistinguishable_third_order :
    ((start .wrapping {} placedFirst).performAll .wrapping
        [(.onLogon, 0), (.sendOrder sampleArgs true, 3)]).1 =
      ((start .wrapping {} filledFirst).performAll .wrapping
        [(.onLogon, 5), (.sendOrder sampleArgs true, 8)]).1 :=
  (retold_indistinguishable {} retells_placedFirst rfl).1

end FIXGateway

end Gateway

end Hft
