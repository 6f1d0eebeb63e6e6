import Hft.Gateway.Interleaving
import Hft.Projections
import Hft.Risk.PositionLimit

/-!
# The loss limit as a lock

`check` turns orders down on a symbol whose realized loss has passed the limit. With no order
left open there, nothing can ever touch the position again: a fill needs an open order, an open
order needs an accepted one, and an accepted one needs a better result. The lock outlives a
restart, since the replay finds the same loss.
-/

namespace Hft

open Logical

namespace OrderManager

/-- No order on the symbol is open. -/
def NoneOpen (orders : OrderManager) (symbol : List UInt8) : Prop :=
  ∀ order ∈ orders.slots, order.symbol.string = symbol → order.isOpen = false

variable {arith : Arithmetic} {orders : OrderManager} {symbol : List UInt8} {event : OrderEvent}

/-- An order on another symbol opens nothing here, also when it takes the slot of an id that
was used before. -/
theorem NoneOpen.newOrder (closed : orders.NoneOpen symbol) (type : event.type = .newOrder)
    (other : event.symbol.string ≠ symbol) : (orders.applyEvent arith event).NoneOpen symbol := by
  have own : ∀ orderId : CharArray 8, (Order.opened orderId event).symbol.string ≠ symbol :=
    fun orderId => by simpa [Order.opened] using other
  intro slot member onSymbol
  obtain old | ⟨before, _, rfl⟩ | ⟨_, rfl⟩ := mem_applyEvent member
  · exact closed slot old onSymbol
  · rw [rewrite, type] at onSymbol
    exact absurd onSymbol (own _)
  · exact absurd onSymbol (own _)

/-- A report about an open order is about another symbol. -/
theorem NoneOpen.rewritten (closed : orders.NoneOpen symbol) (notNew : event.type ≠ .newOrder)
    {order : Order} (found : orders.find? event.orderId.string = some order)
    (isOpen : order.isOpen) :
    order.symbol.string ≠ symbol ∧ (orders.applyEvent arith event).NoneOpen symbol := by
  have elsewhere : order.symbol.string ≠ symbol := by
    intro same
    have := closed order (SlotTable.find?_eq_some_iff.mp found).1 same
    rw [this] at isOpen
    cases isOpen
  refine ⟨elsewhere, ?_⟩
  intro slot member onSymbol
  obtain old | ⟨before, foundBefore, rfl⟩ | ⟨isNew, _⟩ := mem_applyEvent member
  · exact closed slot old onSymbol
  · cases Option.some.inj (found.symm.trans foundBefore)
    have sameSymbol : (rewrite arith event order).symbol = order.symbol := by
      unfold rewrite
      cases type : event.type with
      | newOrder => exact absurd type notNew
      | _ => rfl
    exact absurd (sameSymbol ▸ onSymbol) elsewhere
  · exact absurd isNew notNew

/-- The log determines which orders are open. -/
theorem NoneOpen.of_agree {other : OrderManager} (closed : orders.NoneOpen symbol)
    (agree : other.Agree Order.logged orders) : other.NoneOpen symbol := by
  intro order member onSymbol
  have inView : order.logged ∈ orders.slots.map Order.logged := agree ▸ List.mem_map_of_mem member
  obtain ⟨twin, inTable, same⟩ := List.mem_map.mp inView
  simp only [Order.logged, Order.mk.injEq] at same
  obtain ⟨_, symbolEq, _, _, _, _, _, _, stateEq, _⟩ := same
  have closedTwin := closed twin inTable (by rw [symbolEq]; exact onSymbol)
  rw [Order.isOpen] at closedTwin ⊢
  rw [← stateEq]
  exact closedTwin

end OrderManager

namespace Gateway

/-- One call of the gateway's, or a restart on its log. The exchange reports on open orders. -/
inductive FIXGateway.TradingStep (arith : Arithmetic) (gateway : FIXGateway) :
    FIXGateway → Prop where
  | sendOrder (args : SendArgs) (now : Nat) (sessionFound : Bool) :
      TradingStep arith gateway (gateway.sendOrder arith args now sessionFound).gateway
  | report {after : FIXGateway} (report : ExecutionReport) (now : Nat)
      (conforming : ConformingReport arith gateway.orders report)
      (returned : gateway.fromApp arith (.executionReport report) now = .returned after) :
      TradingStep arith gateway after
  | onLogon : TradingStep arith gateway gateway.onLogon
  | onLogout : TradingStep arith gateway gateway.onLogout
  | markToMarket (sym : StringView) (mktPriceFp : Int) :
      TradingStep arith gateway
        { gateway with tracker := gateway.tracker.markToMarket arith sym mktPriceFp }
  | restart : TradingStep arith gateway (start arith gateway.limits gateway.log)

namespace FIXGateway

variable {arith : Arithmetic} {limits : RiskLimits} {gateway after : FIXGateway}

/-- Between calls, the projections are what the log replays to. -/
def Replayable (arith : Arithmetic) (gateway : FIXGateway) : Prop :=
  (Process.between gateway).Settles arith

theorem Replayable.sessionStep (replayable : gateway.Replayable arith)
    (step : SessionStep arith gateway after) : after.Replayable arith := by
  have threads := Process.run_of_sessionStep step
  unfold Replayable
  generalize Process.between after = last at threads
  induction threads with
  | refl => exact replayable
  | tail _ taken ih => exact ih.step taken

theorem replayable_start (arith : Arithmetic) (limits : RiskLimits) (log : EventLog) :
    (start arith limits log).Replayable arith :=
  Process.settles_rebuilt arith (start arith limits log)

theorem InSession.replayable {log : EventLog} (session : InSession arith limits log gateway) :
    gateway.Replayable arith := by
  induction session with
  | refl => exact replayable_start arith limits log
  | tail _ step ih => exact ih.sessionStep step

/-- What locks a symbol: a loss past the limit, in a position with the fields of `frozen`, and
nothing open that could change it. -/
structure Locked (arith : Arithmetic) (limits : RiskLimits) (symbol : List UInt8)
    (frozen : Position) (gateway : FIXGateway) : Prop where
  replayable : gateway.Replayable arith
  sameLimits : gateway.limits = limits
  held : (gateway.tracker.find? symbol).map Position.logged = some frozen
  noneOpen : gateway.orders.NoneOpen symbol

namespace Locked

variable {symbol : List UInt8} {frozen : Position}

/-- The check turns down every order on the symbol. -/
theorem not_accepts (locked : gateway.Locked arith limits symbol frozen)
    (lost : frozen.realizedPnl < arith.int64 (-limits.maxLossFp)) {args : SendArgs}
    (onSymbol : fieldKey args.symbol = symbol) : ¬gateway.Accepts arith args := by
  rintro ⟨_, passed⟩
  obtain ⟨_, _, projected⟩ := RiskChecker.check_eq_pass_iff.mp passed
  obtain ⟨_, _, withinLoss⟩ := RiskChecker.checkProjected_eq_pass_iff.mp projected
  obtain ⟨position, found, rfl⟩ := Option.map_eq_some_iff.mp locked.held
  refine withinLoss ⟨position.realizedPnl, ?_, ?_⟩
  · rw [PositionTracker.get_eq_find?, onSymbol, found]
    rfl
  · rw [locked.sameLimits]
    exact lost

/-- No call and no restart opens the lock. -/
theorem step (locked : gateway.Locked arith limits symbol frozen)
    (lost : frozen.realizedPnl < arith.int64 (-limits.maxLossFp))
    (taken : gateway.TradingStep arith after) : after.Locked arith limits symbol frozen := by
  cases taken with
  | sendOrder args now sessionFound =>
      have replayable := locked.replayable.sessionStep (.sendOrder args now sessionFound)
      obtain ⟨_, blocked⟩ | ⟨_, _, stopped⟩ | ⟨log, accepted, _, _, sent⟩ :=
        sendOrder_cases arith gateway args now sessionFound
      · rw [blocked]
        exact locked
      · rw [stopped] at replayable ⊢
        exact ⟨replayable, locked.sameLimits, locked.held, locked.noneOpen⟩
      · rw [sent] at replayable ⊢
        have other : (gateway.newOrderEvent args).symbol.string ≠ symbol := by
          rw [symbol_newOrderEvent]
          exact fun onSymbol => locked.not_accepts lost onSymbol accepted
        exact ⟨replayable, locked.sameLimits, locked.held, locked.noneOpen.newOrder rfl other⟩
  | report report now conforming returned =>
      have replayable := locked.replayable.sessionStep (.fromApp _ now returned)
      obtain rfl | ⟨other, event, same, translated, booked⟩ := fromApp_cases returned
      · exact locked
      · cases same
        obtain ⟨log, _, _, rfl⟩ := book_eq_ok_iff.mp booked
        have notNew := MessageTranslator.type_ne_newOrder translated
        cases conforming.takes gateway.projections translated with
        | newOrder type => exact absurd type notNew
        | @fill order isFill found isOpen sameSymbol side positive fits =>
            obtain ⟨elsewhere, closed⟩ := locked.noneOpen.rewritten notNew found isOpen
            refine ⟨replayable, locked.sameLimits, ?_, closed⟩
            rw [PositionTracker.find?_applyEvent_of_ne arith gateway.tracker
              (by rw [sameSymbol]; exact elsewhere.symm)]
            exact locked.held
        | @close order type found isOpen =>
            obtain ⟨_, closed⟩ := locked.noneOpen.rewritten notNew found isOpen
            refine ⟨replayable, locked.sameLimits, ?_, closed⟩
            rw [PositionTracker.applyEvent_of_not_fill arith gateway.tracker
              (by obtain type | type := type <;> simp [OrderEvent.isFill, type])]
            exact locked.held
  | onLogon =>
      exact ⟨locked.replayable.sessionStep .onLogon, locked.sameLimits, locked.held,
        locked.noneOpen⟩
  | onLogout =>
      exact ⟨locked.replayable.sessionStep .onLogout, locked.sameLimits, locked.held,
        locked.noneOpen⟩
  | markToMarket sym mktPriceFp =>
      refine ⟨locked.replayable.sessionStep (.markToMarket sym mktPriceFp), locked.sameLimits, ?_,
        locked.noneOpen⟩
      have agree := @PositionTracker.agree_markToMarket gateway.tracker gateway.tracker rfl arith
        sym mktPriceFp
      rw [← agree.map_find? PositionTracker.key_eq_of_logged_eq]
      exact locked.held
  | restart =>
      refine ⟨replayable_start arith _ _, locked.sameLimits, ?_,
        locked.noneOpen.of_agree locked.replayable.orders⟩
      have agree : (start arith gateway.limits gateway.log).tracker.Agree Position.logged
        gateway.tracker := locked.replayable.tracker
      rw [agree.map_find? PositionTracker.key_eq_of_logged_eq]
      exact locked.held

theorem run (locked : gateway.Locked arith limits symbol frozen)
    (lost : frozen.realizedPnl < arith.int64 (-limits.maxLossFp))
    (steps : Relation.ReflTransGen (TradingStep arith) gateway after) :
    after.Locked arith limits symbol frozen := by
  induction steps with
  | refl => exact locked
  | tail _ taken ih => exact ih.step lost taken

end Locked

/-- A symbol whose realized loss passed the limit while nothing was open on it is never traded
again: through calls, reports and restarts its position keeps every field that the log
determines, no order on it is open, and `send_order` neither logs nor sends. -/
theorem loss_locks {log : EventLog} (session : InSession arith limits log gateway)
    {sym : StringView} {position : Position} (held : gateway.tracker.get sym = some position)
    (lost : position.realizedPnl < arith.int64 (-limits.maxLossFp))
    (noneOpen : gateway.orders.NoneOpen (fieldKey sym))
    (steps : Relation.ReflTransGen (TradingStep arith) gateway after) :
    (after.tracker.get sym).map Position.logged = some position.logged ∧
    after.orders.NoneOpen (fieldKey sym) ∧
    ∀ args now sessionFound, fieldKey args.symbol = fieldKey sym →
      after.sendOrder arith args now sessionFound = ⟨after, none, .ok []⟩ := by
  have found : gateway.tracker.find? (fieldKey sym) = some position := by
    rw [← PositionTracker.get_eq_find?, held]
  have now : gateway.Locked arith limits (fieldKey sym) position.logged :=
    ⟨session.replayable, session.limits_eq, by rw [found]; rfl, noneOpen⟩
  have locked := now.run lost steps
  refine ⟨?_, locked.noneOpen, fun args now sessionFound onSymbol => ?_⟩
  · rw [PositionTracker.get_eq_find?]
    exact locked.held
  · have refused := locked.not_accepts lost onSymbol
    obtain ⟨_, blocked⟩ | ⟨accepted, _⟩ | ⟨_, accepted, _⟩ :=
      sendOrder_cases arith after args now sessionFound
    · exact blocked
    · exact absurd accepted refused
    · exact absurd accepted refused

/-- No loss is allowed. -/
def lossLimits : RiskLimits := { maxLossFp := 0 }

/-- A share bought at 175. -/
def heldShare : FIXGateway :=
  ((start .wrapping lossLimits EventLog.empty).onLogon.sent .buy).delivered
    (filledReport (ascii "ORD0"))

/-- It is sold at 174. -/
def lossTaken : FIXGateway :=
  (heldShare.sent .sell).delivered
    { tradedReport (ascii "ORD1") .sell 1 with lastPx := some 174 }

theorem inSession_lossTaken : InSession .wrapping lossLimits EventLog.empty lossTaken := by
  have connected : InSession .wrapping lossLimits EventLog.empty _ := .single .onLogon
  have bought := connected.tail (.sendOrder (oneShare .buy) 0 true)
  have filled : InSession .wrapping lossLimits EventLog.empty heldShare :=
    bought.tail (.fromApp (.executionReport (filledReport (ascii "ORD0"))) 0 rfl)
  have sold := filled.tail (.sendOrder (oneShare .sell) 0 true)
  exact sold.tail (.fromApp (.executionReport
    { tradedReport (ascii "ORD1") .sell 1 with lastPx := some 174 }) 0 rfl)

/-- After the loss, a restart and a logon, one more share is not bought. -/
theorem loss_locks_restart :
    let restarted := (start .wrapping lossTaken.limits lossTaken.log).onLogon
    restarted.sendOrder .wrapping (oneShare .buy) 0 true = ⟨restarted, none, .ok []⟩ := by
  have lost : ∃ position, lossTaken.tracker.get sampleArgs.symbol = some position ∧
      position.realizedPnl < Arithmetic.wrapping.int64 (-lossLimits.maxLossFp) := by
    decide +kernel
  obtain ⟨position, held, loss⟩ := lost
  have closed : lossTaken.orders.NoneOpen (fieldKey sampleArgs.symbol) := by
    unfold OrderManager.NoneOpen
    decide +kernel
  exact (loss_locks inSession_lossTaken held loss closed
    ((Relation.ReflTransGen.single .restart).tail .onLogon)).2.2 (oneShare .buy) 0 true rfl

end FIXGateway

end Gateway

end Hft
