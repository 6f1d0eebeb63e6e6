import Hft.Risk.LossLock
import Hft.Risk.RacingCheck

/-!
# The position limit over many lifetimes

A restarted gateway numbers its orders from 0 again, so the table rebuilt from the log gives the
slot of an earlier order to a new one with the same id, and the account of what each order filled
is lost with it. The limit survives, since it never rested on that account: what counts is how far
a position can still go (`Book.reach`), and a slot that is taken over adds nothing to that unless
the order in it was still open.
-/

namespace Hft

open Logical

/-! ## Books rebuilt from the log -/

theorem PositionTracker.netOf_of_agree {rebuilt live : PositionTracker}
    (agree : rebuilt.Agree Position.logged live) (symbol : List UInt8) :
    rebuilt.netOf symbol = live.netOf symbol := by
  have read : ∀ tracker : PositionTracker, tracker.netOf symbol =
      (((tracker.find? symbol).map Position.logged).map Position.netQty).getD 0 := by
    intro tracker
    unfold netOf
    cases tracker.find? symbol <;> rfl
  rw [read, read, agree.map_find? key_eq_of_logged_eq]

namespace OrderManager

variable {rebuilt live : OrderManager}

/-- A total over fields that the log determines. -/
theorem totalOn_of_agree (agree : rebuilt.Agree Order.logged live) {figure : Order → Int}
    (unseen : ∀ order : Order, figure order.logged = figure order) (symbol : List UInt8) :
    rebuilt.totalOn symbol figure = live.totalOn symbol figure := by
  refine congrArg List.sum (agree.map_eq_map fun order twin same => ?_)
  have sameSymbol : order.logged.symbol = twin.logged.symbol := congrArg Order.symbol same
  change order.symbol = twin.symbol at sameSymbol
  rw [sameSymbol, ← unseen order, same, unseen twin]

theorem coherent_of_agree (agree : rebuilt.Agree Order.logged live)
    (coherent : ∀ order ∈ live.slots, order.Coherent) :
    ∀ order ∈ rebuilt.slots, order.Coherent := by
  intro order member
  have inView : order.logged ∈ live.slots.map Order.logged := agree ▸ List.mem_map_of_mem member
  obtain ⟨twin, inTable, same⟩ := List.mem_map.mp inView
  have transported : order.logged.Coherent := by
    rw [← same]
    exact ⟨{ (coherent twin inTable).sound with }, (coherent twin inTable).qtyBounded⟩
  exact ⟨{ transported.sound with }, transported.qtyBounded⟩

end OrderManager

namespace Book

variable {arith : Arithmetic} {book : Book} {event : OrderEvent}

theorem reach_of_agree {rebuilt live : Book}
    (tracker : rebuilt.tracker.Agree Position.logged live.tracker)
    (orders : rebuilt.orders.Agree Order.logged live.orders) (side : Side) (symbol : List UInt8) :
    rebuilt.reach side symbol = live.reach side symbol := by
  unfold reach
  rw [PositionTracker.netOf_of_agree tracker,
    OrderManager.totalOn_of_agree orders fun _ => rfl]

/-- What is pending only adds to a reach. -/
theorem sign_mul_netOf_le (coherent : ∀ order ∈ book.orders.slots, order.Coherent) (side : Side)
    (symbol : List UInt8) : side.sign * book.tracker.netOf symbol ≤ book.reach side symbol :=
  le_add_of_nonneg_right (OrderManager.totalOn_nonneg fun order member =>
    (coherent order member).sound.pendingOn_nonneg side)

/-! ## Slots that are taken over -/

/-- A new order takes a slot of its own, or that of an earlier order with its id. -/
theorem totalOn_placed (slot : book.orders.find? event.orderId.string = none →
      book.orders.orderCount < maxOrders) (symbol : List UInt8) {figure : Order → Int}
    (vacated : ∀ order, book.orders.find? event.orderId.string = some order → figure order = 0)
    (forgets : ∀ orderId : CharArray 8, figure (Order.opened orderId event) =
      figure (Order.opened event.orderId event)) :
    (book.orders.handleNew event).totalOn symbol figure =
      book.orders.totalOn symbol figure +
        if event.symbol.string = symbol then figure (Order.opened event.orderId event) else 0 := by
  cases found : book.orders.find? event.orderId.string with
  | none => rw [OrderManager.totalOn_newOrder found (slot found), forgets]
  | some order =>
      have keyed := OrderManager.key_opened_strncpy event
      have onSymbol : (Order.opened order.orderId event).symbol.string = event.symbol.string := by
        simp [Order.opened]
      unfold OrderManager.totalOn OrderManager.handleNew
      rw [SlotTable.upsert_of_found _ (keyed ▸ found), SlotTable.sum_update _ _ (keyed ▸ found),
        onSymbol, vacated order found, forgets]
      simp

/-- However its slot comes about, a new order extends the reach of its own side and symbol by its
quantity. -/
theorem reach_placed (type : event.type = .newOrder)
    (slot : book.orders.find? event.orderId.string = none → book.orders.orderCount < maxOrders)
    (closed : ∀ order, book.orders.find? event.orderId.string = some order → order.isOpen = false)
    (side : Side) (symbol : List UInt8) :
    (book.apply arith event).reach side symbol = book.reach side symbol +
      if event.symbol.string = symbol ∧ event.side.sign = side.sign then event.qty else 0 := by
  have pending : (Order.opened event.orderId event).pendingOn side =
      if event.side.sign = side.sign then event.qty else 0 := by
    simp [Order.pendingOn, Order.opened, Order.isOpen]
  unfold reach
  rw [apply_of_newOrder arith book type, totalOn_placed slot symbol
    (fun order found => Order.pendingOn_of_closed (closed order found) side) (fun _ => rfl),
    pending, ite_and]
  ring

theorem coherent_placed (coherent : ∀ order ∈ book.orders.slots, order.Coherent)
    (type : event.type = .newOrder) (positive : 0 < event.qty) (sized : event.qty ≤ 10000) :
    ∀ order ∈ (book.apply arith event).orders.slots, order.Coherent := by
  have opened : ∀ orderId : CharArray 8, (Order.opened orderId event).Coherent := fun orderId =>
    ⟨Order.sound_opened orderId positive (by omega), sized⟩
  intro order member
  obtain old | ⟨before, _, rfl⟩ | ⟨_, rfl⟩ := OrderManager.mem_applyEvent member
  · exact coherent order old
  · rw [OrderManager.rewrite, type]
    exact opened _
  · exact opened _

/-! ## Reports -/

/-- A fill takes from the pending quantity of its side what it adds to the net quantity, also
when the tracker has no slot for it. -/
theorem reach_filled {order : Order} (sound : order.Sound) (isFill : event.isFill = true)
    (found : book.orders.find? event.orderId.string = some order) (isOpen : order.isOpen)
    (symbolEq : event.symbol.string = order.symbol.string)
    (sameSide : event.side.sign = order.side.sign) (positive : 0 < event.fillQty)
    (fits : event.fillQty ≤ order.remainingQty arith)
    (small : InRange 64 (book.tracker.netOf event.symbol.string +
      event.side.sign * event.fillQty)) (side : Side) (symbol : List UInt8) :
    (book.apply arith event).reach side symbol ≤ book.reach side symbol := by
  have total := OrderManager.totalOn_update (Order.key_fill arith event) rfl found symbol
    (Order.pendingOn side)
  have taken := sound.pendingOn_fill isOpen positive fits side
  have moved : side.sign * (event.side.sign * event.fillQty) +
      ((order.fill arith event).pendingOn side - order.pendingOn side) ≤ 0 := by
    rw [taken, sameSide]
    obtain own | own := order.side.sign_eq <;> obtain other | other := side.sign_eq <;>
      simp [own, other] <;> omega
  unfold reach
  rw [Book.apply, OrderManager.applyEvent_of_isFill arith _ isFill]
  refine (add_le_add_right total.le _).trans ?_
  obtain same | net := PositionTracker.netOf_applyEvent_cases arith isFill small
  · have shrunk : (order.fill arith event).pendingOn side ≤ order.pendingOn side := by
      rw [taken]
      split <;> omega
    rw [same]
    refine add_le_add_right ?_ (side.sign * book.tracker.netOf symbol)
    split <;> omega
  · rw [net, symbolEq]
    split
    · linarith
    · simp

/-- What a report does to a book in which no account is kept: nothing that extends a reach or
leaves an order incoherent, and at most 10,000 to a net quantity. -/
theorem reported (coherent : ∀ order ∈ book.orders.slots, order.Coherent)
    (small : ∀ symbol, |book.tracker.netOf symbol| < 2 ^ 62) (taken : book.Takes arith event)
    (notNew : event.type ≠ .newOrder) :
    (∀ order ∈ (book.apply arith event).orders.slots, order.Coherent) ∧
    (∀ side symbol, (book.apply arith event).reach side symbol ≤ book.reach side symbol) ∧
    ∀ symbol, |(book.apply arith event).tracker.netOf symbol| ≤
      |book.tracker.netOf symbol| + 10000 := by
  cases taken with
  | newOrder type => exact absurd type notNew
  | @fill order isFill found isOpen symbolEq sameSide positive fits =>
      have whole := coherent order (SlotTable.find?_eq_some_iff.mp found).1
      obtain ⟨sound, sized⟩ := whole
      have remaining := sound.remainingQty_eq arith
      have nonneg := sound.filledNonneg
      have bounds := abs_lt.mp (small event.symbol.string)
      have signed : |event.side.sign * event.fillQty| ≤ 10000 := by
        rw [abs_le]
        obtain sign | sign := event.side.sign_eq <;> rw [sign] <;> omega
      have steps := abs_le.mp signed
      have inRange : InRange 64 (book.tracker.netOf event.symbol.string +
          event.side.sign * event.fillQty) := inRange_64 (by omega) (by omega)
      refine ⟨?_, reach_filled sound isFill found isOpen symbolEq sameSide positive fits inRange,
        fun symbol => ?_⟩
      · rw [Book.apply, OrderManager.applyEvent_of_isFill arith _ isFill]
        exact SlotTable.forall_update (Order.key_fill arith event) coherent found
          ⟨sound.fill arith positive fits, sized⟩
      · obtain same | net := PositionTracker.netOf_applyEvent_cases arith isFill inRange
        · rw [Book.apply, same]
          exact le_add_of_nonneg_right (by norm_num)
        · rw [Book.apply, net]
          refine (abs_add_le _ _).trans (add_le_add_right ?_ _)
          split
          · exact signed
          · simp
  | @close order type found isOpen =>
      have whole := coherent order (SlotTable.find?_eq_some_iff.mp found).1
      obtain ⟨sound, sized⟩ := whole
      obtain ⟨state, dead, applied⟩ := apply_of_close arith book type
      rw [applied]
      refine ⟨?_, reach_close_le found sound dead,
        fun symbol => le_add_of_nonneg_right (by norm_num)⟩
      exact SlotTable.forall_update (Order.key_ended state event) coherent found
        ⟨sound.ended dead event, sized⟩

end Book

namespace Gateway.FIXGateway

/-! ## Lifetimes -/

/-- One call of a gateway, a change of its limits, or the end of the process and the start of
another one on its log. Orders are of positive quantity, a new id finds a free slot in the order
table, and no order is given the id of one that is still open. -/
inductive LifetimeStep (arith : Arithmetic) (permitted : RiskLimits → Prop)
    (allowance : List UInt8 → Int) (gateway : FIXGateway) : FIXGateway → Prop where
  | send (args : SendArgs) (now : Nat) (sessionFound : Bool) (positive : 0 < args.qty)
      (slot : gateway.orders.find? (orderKey gateway.orderCounter) = none →
        gateway.orders.orderCount < maxOrders)
      (idFree : ∀ order, gateway.orders.find? (orderKey gateway.orderCounter) = some order →
        order.isOpen = false)
      (netted : gateway.Accepts arith args → NettedWithin allowance gateway args) :
      LifetimeStep arith permitted allowance gateway
        (gateway.sendOrder arith args now sessionFound).gateway
  | report {after : FIXGateway} (report : ExecutionReport) (now : Nat)
      (conforming : ConformingReport arith gateway.orders report)
      (returned : gateway.fromApp arith (.executionReport report) now = .returned after) :
      LifetimeStep arith permitted allowance gateway after
  | onLogon : LifetimeStep arith permitted allowance gateway gateway.onLogon
  | onLogout : LifetimeStep arith permitted allowance gateway gateway.onLogout
  | setLimits (limits : RiskLimits) (allowed : permitted limits) :
      LifetimeStep arith permitted allowance gateway { gateway with limits := limits }
  | restart (limits : RiskLimits) (allowed : permitted limits) :
      LifetimeStep arith permitted allowance gateway (start arith limits gateway.log)

variable {arith : Arithmetic} {limits : RiskLimits} {gateway after : FIXGateway}

/-- What outlives a process. The log bounds how much can have been traded at all. -/
structure Bounded (arith : Arithmetic) (bound : Int) (allowance : List UInt8 → Int)
    (gateway : FIXGateway) : Prop where
  replayable : gateway.Replayable arith
  limits : Permitted bound gateway.limits
  coherent : ∀ order ∈ gateway.orders.slots, order.Coherent
  traded : ∀ symbol, |gateway.tracker.netOf symbol| ≤ 10000 * gateway.log.size
  within : ∀ side symbol, gateway.projections.reach side symbol ≤ bound + allowance symbol

namespace Bounded

variable {bound : Int} {allowance : List UInt8 → Int}

/-- Ten million events of 10,000 shares are far from the range of 64 bits. -/
theorem abs_netOf_le (bounded : gateway.Bounded arith bound allowance) (symbol : List UInt8) :
    |gateway.tracker.netOf symbol| ≤ 100000000000 := by
  have traded := bounded.traded symbol
  have size : gateway.log.size ≤ maxEvents := gateway.log.bounded
  simp only [maxEvents] at size
  omega

/-- An approved order leaves its side's reach within the limit, up to what was netted away. -/
theorem approved (bounded : gateway.Bounded arith bound allowance) (typed : bound < 2 ^ 63)
    {args : SendArgs} (accepted : gateway.Accepts arith args) (positive : 0 < args.qty) :
    gateway.projections.reach args.side (fieldKey args.symbol) + args.qty ≤
      bound + gateway.opposing args := by
  obtain ⟨nonneg, below, sized⟩ := bounded.limits
  have scanned := OrderManager.openExposure_eq_totalOn arith bounded.coherent args.symbol
  have exposure : |gateway.projections.trueExposure arith args.symbol| ≤ 2 ^ 40 := by
    have net := bounded.abs_netOf_le (fieldKey args.symbol)
    have pending : |gateway.orders.totalOn (fieldKey args.symbol) Order.pendingSigned| ≤
        10000 * maxOrders :=
      OrderManager.abs_totalOn_le _ (by norm_num) fun order member =>
        (bounded.coherent order member).sound.abs_pendingSigned_le.trans
          (bounded.coherent order member).qtyBounded
    have whole : gateway.projections.trueExposure arith args.symbol =
        gateway.tracker.netOf (fieldKey args.symbol) +
          gateway.orders.totalOn (fieldKey args.symbol) Order.pendingSigned := by
      rw [← scanned, ← PositionTracker.netQty_eq_netOf]
      rfl
    have sum := abs_add_le (gateway.tracker.netOf (fieldKey args.symbol))
      (gateway.orders.totalOn (fieldKey args.symbol) Order.pendingSigned)
    simp only [maxOrders] at pending
    rw [whole]
    omega
  obtain ⟨upper, lower⟩ := (accepted.rules_passed positive (by omega) exposure).1
  rw [arith.int64_exact (inRange_64 (by omega) (by omega))] at lower
  have netted := @Book.sign_mul_trueExposure arith gateway.projections _ scanned args.side
  change _ = _ - gateway.opposing args at netted
  obtain sign | sign := args.side.sign_eq <;> rw [sign] at netted upper lower <;> omega

/-- An event that is booked or recorded makes room for 10,000 more shares. -/
theorem traded_append {log : EventLog} {event : OrderEvent} {before after : Int}
    (events : log.events = gateway.log.events ++ [event])
    (traded : before ≤ 10000 * gateway.log.size) (moved : after ≤ before + 10000) :
    after ≤ 10000 * log.size := by
  have size : log.size = gateway.log.size + 1 := by simp [EventLog.size, events]
  rw [size]
  push_cast
  omega

theorem send (bounded : gateway.Bounded arith bound allowance) (typed : bound < 2 ^ 63)
    {args : SendArgs} (positive : 0 < args.qty)
    (slot : gateway.orders.find? (orderKey gateway.orderCounter) = none →
      gateway.orders.orderCount < maxOrders)
    (idFree : ∀ order, gateway.orders.find? (orderKey gateway.orderCounter) = some order →
      order.isOpen = false)
    (netted : gateway.Accepts arith args → NettedWithin allowance gateway args) (now : Nat)
    (sessionFound : Bool) :
    (gateway.sendOrder arith args now sessionFound).gateway.Bounded arith bound allowance := by
  have replayable := bounded.replayable.sessionStep (.sendOrder args now sessionFound)
  obtain ⟨_, blocked⟩ | ⟨_, _, stopped⟩ | ⟨log, accepted, room, events, sent⟩ :=
    sendOrder_cases arith gateway args now sessionFound
  · rw [blocked]
    exact bounded
  · rw [stopped] at replayable ⊢
    exact ⟨replayable, bounded.limits, bounded.coherent, bounded.traded, bounded.within⟩
  · rw [sent] at replayable ⊢
    have sized : args.qty ≤ 10000 :=
      (RiskChecker.check_eq_pass_iff.mp accepted.2).1.trans bounded.limits.sized
    have applied : gateway.projections.apply arith (gateway.newOrderEvent args) =
        ⟨gateway.tracker, gateway.orders.applyEvent arith (gateway.newOrderEvent args)⟩ := by
      rw [Book.apply, PositionTracker.applyEvent_of_not_fill arith _ rfl]
      rfl
    have coherent := @Book.coherent_placed arith gateway.projections
      (gateway.newOrderEvent args) bounded.coherent rfl positive sized
    rw [applied] at coherent
    refine ⟨replayable, bounded.limits, coherent, fun symbol => ?_, fun side symbol => ?_⟩
    · exact traded_append events (bounded.traded symbol) (le_add_of_nonneg_right (by norm_num))
    · have reach := @Book.reach_placed arith gateway.projections (gateway.newOrderEvent args) rfl
        (by rw [orderId_newOrderEvent]; exact slot) (by rw [orderId_newOrderEvent]; exact idFree)
        side symbol
      rw [applied, symbol_newOrderEvent] at reach
      refine reach.le.trans ?_
      split
      · rename_i hit
        obtain ⟨rfl, sameSign⟩ := hit
        change args.side.sign = side.sign at sameSign
        have approved := bounded.approved typed accepted positive
        have within : gateway.opposing args ≤ allowance (fieldKey args.symbol) := netted accepted
        rw [← Book.reach_congr sameSign]
        change _ + args.qty ≤ _
        omega
      · rw [add_zero]
        exact bounded.within side symbol

theorem report (bounded : gateway.Bounded arith bound allowance) {report : ExecutionReport}
    {now : Nat} (conforming : ConformingReport arith gateway.orders report)
    (returned : gateway.fromApp arith (.executionReport report) now = .returned after) :
    after.Bounded arith bound allowance := by
  have replayable := bounded.replayable.sessionStep (.fromApp _ now returned)
  obtain rfl | ⟨other, event, same, translated, booked⟩ := fromApp_cases returned
  · exact bounded
  · cases same
    obtain ⟨log, _, events, rfl⟩ := book_eq_ok_iff.mp booked
    have small : ∀ symbol, |gateway.projections.tracker.netOf symbol| < 2 ^ 62 := fun symbol =>
      (bounded.abs_netOf_le symbol).trans_lt (by norm_num)
    obtain ⟨coherent, shorter, moved⟩ := Book.reported bounded.coherent small
      (conforming.takes gateway.projections translated)
      (MessageTranslator.type_ne_newOrder translated)
    exact ⟨replayable, bounded.limits, coherent,
      fun symbol => traded_append events (bounded.traded symbol) (moved symbol),
      fun side symbol => (shorter side symbol).trans (bounded.within side symbol)⟩

/-- The next process takes over what its predecessor's log holds. -/
theorem restart (bounded : gateway.Bounded arith bound allowance)
    (allowed : Permitted bound limits) :
    (start arith limits gateway.log).Bounded arith bound allowance where
  replayable := replayable_start arith limits gateway.log
  limits := allowed
  coherent := OrderManager.coherent_of_agree bounded.replayable.orders bounded.coherent
  traded symbol := by
    rw [PositionTracker.netOf_of_agree (show (start arith limits gateway.log).tracker.Agree
      Position.logged gateway.tracker from bounded.replayable.tracker)]
    exact bounded.traded symbol
  within side symbol := by
    have same : (start arith limits gateway.log).projections.reach side symbol =
        gateway.projections.reach side symbol :=
      Book.reach_of_agree bounded.replayable.tracker bounded.replayable.orders side symbol
    rw [same]
    exact bounded.within side symbol

theorem step (bounded : gateway.Bounded arith bound allowance) (typed : bound < 2 ^ 63)
    (taken : LifetimeStep arith (Permitted bound) allowance gateway after) :
    after.Bounded arith bound allowance := by
  cases taken with
  | send args now sessionFound positive slot idFree netted =>
      exact bounded.send typed positive slot idFree netted now sessionFound
  | report report now conforming returned => exact bounded.report conforming returned
  | onLogon =>
      exact ⟨bounded.replayable.sessionStep .onLogon, bounded.limits, bounded.coherent,
        bounded.traded, bounded.within⟩
  | onLogout =>
      exact ⟨bounded.replayable.sessionStep .onLogout, bounded.limits, bounded.coherent,
        bounded.traded, bounded.within⟩
  | setLimits limits allowed =>
      exact ⟨{ bounded.replayable with }, allowed, bounded.coherent, bounded.traded, bounded.within⟩
  | restart limits allowed => exact bounded.restart allowed

end Bounded

theorem bounded_start {bound : Int} {allowance : List UInt8 → Int}
    (allowed : ∀ symbol, 0 ≤ allowance symbol) (permitted : Permitted bound limits) :
    (start arith limits EventLog.empty).Bounded arith bound allowance where
  replayable := replayable_start arith limits EventLog.empty
  limits := permitted
  coherent order member := absurd member List.not_mem_nil
  traded symbol := le_of_eq rfl
  within side symbol := by
    have flat := @reach_start_empty arith limits side symbol
    have := allowed symbol
    have := permitted.nonneg
    have := permitted.bounded
    omega

/-- Over any number of processes on one log, no net position passes `bound` by more than the
largest open quantity that an order on its symbol had netted away, however the ids are used again
once their orders are closed. -/
theorem lifetimes_position_bounded {bound : Int} {allowance : List UInt8 → Int}
    (typed : bound < 2 ^ 63) (allowed : ∀ symbol, 0 ≤ allowance symbol)
    (permitted : Permitted bound limits)
    (run : Relation.ReflTransGen (LifetimeStep arith (Permitted bound) allowance)
      (start arith limits EventLog.empty) gateway) (sym : StringView) :
    |gateway.tracker.netQty sym| ≤ bound + allowance (fieldKey sym) := by
  have bounded : gateway.Bounded arith bound allowance := by
    induction run with
    | refl => exact bounded_start allowed permitted
    | tail _ taken ih => exact ih.step typed taken
  rw [PositionTracker.netQty_eq_netOf]
  exact Side.abs_le_of_sides fun side =>
    (Book.sign_mul_netOf_le bounded.coherent side (fieldKey sym)).trans
      (bounded.within side (fieldKey sym))

/-! ## One id in two lifetimes -/

/-- A share is bought under id 0. -/
def firstLife : FIXGateway :=
  ((start .wrapping tightLimits EventLog.empty).onLogon.sent .buy).delivered
    (filledReport (ascii "ORD0"))

/-- The next process sells it under the same id. -/
def secondLife : FIXGateway :=
  ((start .wrapping tightLimits firstLife.log).onLogon.sent .sell).delivered
    (tradedReport (ascii "ORD0") .sell 1)

/-- Of two orders the table holds one, and the position is flat again. -/
theorem lifetimes_position_bounded_reused :
    secondLife.log.size = 4 ∧ secondLife.orders.orderCount = 1 ∧
      |secondLife.tracker.netQty sampleArgs.symbol| ≤ tightLimits.maxNetPosition + 0 := by
  have connected : Relation.ReflTransGen (LifetimeStep .wrapping (Permitted 1) fun _ => 0)
      (start .wrapping tightLimits EventLog.empty)
      (start .wrapping tightLimits EventLog.empty).onLogon := .single .onLogon
  have unopposed : FIXGateway.opposing (start .wrapping tightLimits EventLog.empty).onLogon
      (oneShare .buy) ≤ 0 := by decide +kernel
  have bought := connected.tail (.send (oneShare .buy) 0 true (by decide) (fun _ => by decide)
    (by decide +kernel) fun _ => unopposed)
  have first : ConformingReport .wrapping
      ((start .wrapping tightLimits EventLog.empty).onLogon.sent .buy).orders
      (filledReport (ascii "ORD0")) :=
    conformingReport_filledReport (Option.eq_some_of_isSome (by decide +kernel)) (by decide +kernel)
  have filled : Relation.ReflTransGen (LifetimeStep .wrapping (Permitted 1) fun _ => 0)
      (start .wrapping tightLimits EventLog.empty) firstLife :=
    bought.tail (.report _ 0 first rfl)
  have permitted : Permitted 1 tightLimits := ⟨by decide, by decide, by decide⟩
  have restarted := (filled.tail (.restart tightLimits permitted)).tail .onLogon
  have settled : FIXGateway.opposing (start .wrapping tightLimits firstLife.log).onLogon
      (oneShare .sell) ≤ 0 := by decide +kernel
  have sold := restarted.tail (.send (oneShare .sell) 0 true (by decide)
    (fun _ => by decide +kernel) (by decide +kernel) fun _ => settled)
  have second : ConformingReport .wrapping
      ((start .wrapping tightLimits firstLife.log).onLogon.sent .sell).orders
      (tradedReport (ascii "ORD0") .sell 1) :=
    conformingReport_tradedReport (Option.eq_some_of_isSome (by decide +kernel)) (by decide +kernel)
  have run : Relation.ReflTransGen (LifetimeStep .wrapping (Permitted 1) fun _ => 0)
      (start .wrapping tightLimits EventLog.empty) secondLife := sold.tail (.report _ 0 second rfl)
  exact ⟨by decide +kernel, by decide +kernel,
    lifetimes_position_bounded (by decide) (fun _ => by decide) permitted run sampleArgs.symbol⟩

end Gateway.FIXGateway

end Hft
