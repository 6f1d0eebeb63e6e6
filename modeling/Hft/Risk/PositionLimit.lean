import Hft.Risk.ConformingRun
import Mathlib.Algebra.BigOperators.Ring.List
import Mathlib.Algebra.Order.BigOperators.Group.List

/-!
# How far a net position can go

The risk check approves one net figure, while the exchange may fill any part of the open
orders. The figure that survives every choice of the exchange is `reach`: the net
quantity plus everything still pending on one side. Fills and endings never raise it,
and an approved order raises it to at most the limit plus what the check had netted
away, the open quantity on the other side.
-/

namespace Hft

open Logical

/-- A figure bounded in both directions. -/
theorem Side.abs_le_of_sides {figure bound : Int}
    (bounded : ∀ side : Side, side.sign * figure ≤ bound) : |figure| ≤ bound := by
  have long : 1 * figure ≤ bound := bounded .buy
  have short : -1 * figure ≤ bound := bounded .sell
  rw [abs_le]
  omega

namespace Order

/-- Quantity still working on one side of the market. -/
def pendingOn (side : Side) (order : Order) : Int :=
  if order.isOpen ∧ order.side.sign = side.sign then order.originalQty - order.filledQty else 0

theorem Sound.pendingOn_nonneg {order : Order} (sound : order.Sound) (side : Side) :
    0 ≤ order.pendingOn side := by
  have := sound.filledLe
  unfold pendingOn
  split <;> omega

theorem pendingOn_of_closed {order : Order} (closed : order.isOpen = false) (side : Side) :
    order.pendingOn side = 0 := by
  simp [pendingOn, closed]

/-- Signed pending quantity, seen from one side, nets the two sides. -/
theorem sign_mul_pendingSigned (order : Order) (side : Side) :
    side.sign * order.pendingSigned = order.pendingOn side - order.pendingOn side.opposite := by
  unfold pendingSigned pendingOn
  rw [Side.sign_opposite]
  by_cases isOpen : order.isOpen
  · obtain own | own := order.side.sign_eq <;> obtain other | other := side.sign_eq <;>
      simp [isOpen, own, other]
  · simp [isOpen]

/-- A fill takes its quantity from what its side has pending. -/
theorem Sound.pendingOn_fill {order : Order} (sound : order.Sound) {arith : Arithmetic}
    {event : OrderEvent} (isOpen : order.isOpen) (positive : 0 < event.fillQty)
    (fits : event.fillQty ≤ order.remainingQty arith) (side : Side) :
    (order.fill arith event).pendingOn side = order.pendingOn side -
      if order.side.sign = side.sign then event.fillQty else 0 := by
  obtain ⟨filledEq, stateEq⟩ := sound.fill_fields arith positive fits
  rw [sound.remainingQty_eq] at fits
  have sameSide : (order.fill arith event).side = order.side := rfl
  have sameQty : (order.fill arith event).originalQty = order.originalQty := rfl
  unfold pendingOn
  rw [sameSide, sameQty, filledEq, Order.isOpen, stateEq]
  by_cases own : order.side.sign = side.sign
  · by_cases done : order.originalQty ≤ order.filledQty + event.fillQty
    · simp [own, isOpen, done]
      omega
    · simp [own, isOpen, done]
      ring
  · simp [own]

end Order

namespace OrderManager

/-- Totals are additive in the figure. -/
theorem totalOn_sub (orders : OrderManager) (symbol : List UInt8) (left right : Order → Int) :
    orders.totalOn symbol (fun order => left order - right order) =
      orders.totalOn symbol left - orders.totalOn symbol right := by
  unfold totalOn
  induction orders.slots with
  | nil => rfl
  | cons order rest ih =>
      simp only [List.map_cons, List.sum_cons, ih]
      split <;> ring

theorem totalOn_mul (orders : OrderManager) (symbol : List UInt8) (factor : Int)
    (figure : Order → Int) :
    orders.totalOn symbol (fun order => factor * figure order) =
      factor * orders.totalOn symbol figure := by
  unfold totalOn
  rw [← List.sum_map_mul_left]
  congr 1
  apply List.map_congr_left
  intro order _
  split <;> simp

theorem totalOn_nonneg {orders : OrderManager} {symbol : List UInt8} {figure : Order → Int}
    (nonneg : ∀ order ∈ orders.slots, 0 ≤ figure order) : 0 ≤ orders.totalOn symbol figure := by
  apply List.sum_nonneg
  intro value member
  obtain ⟨order, inTable, rfl⟩ := List.mem_map.mp member
  split
  · exact nonneg order inTable
  · exact le_refl 0

end OrderManager

namespace Book

/-- The furthest the net quantity can go in a side's direction if the exchange fills
every open order of that side and nothing else. -/
def reach (book : Book) (side : Side) (symbol : List UInt8) : Int :=
  side.sign * book.tracker.netOf symbol + book.orders.totalOn symbol (Order.pendingOn side)

variable {arith : Arithmetic} {book : Book}

/-- A reach is one of a direction, not of a side's name. -/
theorem reach_congr {side other : Side} (same : side.sign = other.sign) (symbol : List UInt8) :
    book.reach side symbol = book.reach other symbol := by
  unfold reach Order.pendingOn
  rw [same]

/-- The exposure the check works with, seen from one side: the reach of that side less
the open quantity of the other. -/
theorem sign_mul_trueExposure {sym : StringView}
    (scanned : book.orders.openExposure arith sym =
      book.orders.totalOn (fieldKey sym) Order.pendingSigned) (side : Side) :
    side.sign * book.trueExposure arith sym = book.reach side (fieldKey sym) -
      book.orders.totalOn (fieldKey sym) (Order.pendingOn side.opposite) := by
  unfold trueExposure reach
  rw [PositionTracker.netQty_eq_netOf, scanned, mul_add, ← OrderManager.totalOn_mul]
  simp only [Order.sign_mul_pendingSigned]
  rw [OrderManager.totalOn_sub]
  ring

theorem Accounted.sign_mul_netOf_le (accounted : book.Accounted) (side : Side)
    (symbol : List UInt8) : side.sign * book.tracker.netOf symbol ≤ book.reach side symbol := by
  have pending : 0 ≤ book.orders.totalOn symbol (Order.pendingOn side) :=
    OrderManager.totalOn_nonneg fun order member =>
      (accounted.sound order member).pendingOn_nonneg side
  unfold reach
  omega

/-- A new order extends the reach of its own side and symbol by its quantity. -/
theorem reach_newOrder {event : OrderEvent} (type : event.type = .newOrder)
    (isNew : book.orders.find? event.orderId.string = none)
    (room : book.orders.orderCount < maxOrders) (side : Side) (symbol : List UInt8) :
    (book.apply arith event).reach side symbol = book.reach side symbol +
      if event.symbol.string = symbol ∧ event.side.sign = side.sign then event.qty else 0 := by
  unfold reach
  rw [apply_of_newOrder arith book type, OrderManager.totalOn_newOrder isNew room]
  have pending : (Order.opened (strncpy event.orderIdView.data 8) event).pendingOn side =
      if event.side.sign = side.sign then event.qty else 0 := by
    simp [Order.pendingOn, Order.opened, Order.isOpen]
  rw [pending, ite_and]
  ring

/-- An ending gives pending quantity back, so it never extends a reach. -/
theorem reach_close_le {event : OrderEvent} {order : Order}
    (found : book.orders.find? event.orderId.string = some order) (sound : order.Sound)
    {state : OrderState} (dead : state = .cancelled ∨ state = .rejected) (side : Side)
    (symbol : List UInt8) :
    reach ⟨book.tracker, SlotTable.update book.orders event.orderId.string
      (Order.ended state event) (Order.key_ended state event)⟩ side symbol ≤
      book.reach side symbol := by
  have pending := sound.pendingOn_nonneg side
  have closed : (order.ended state event).isOpen = false := by
    obtain rfl | rfl := dead <;> rfl
  unfold reach
  refine add_le_add_right ?_ _
  rw [OrderManager.totalOn_update (Order.key_ended state event) rfl found,
    Order.pendingOn_of_closed closed]
  split <;> omega

/-- What a fill adds to the net quantity of its own side it takes from the pending
quantity; the other side only falls back. -/
theorem Accounted.reach_fill_le (accounted : book.Accounted) {event : OrderEvent} {order : Order}
    (isFill : event.isFill = true) (found : book.orders.find? event.orderId.string = some order)
    (isOpen : order.isOpen) (symbolEq : event.symbol.string = order.symbol.string)
    (sameSide : event.side.sign = order.side.sign) (positive : 0 < event.fillQty)
    (fits : event.fillQty ≤ order.remainingQty arith) (side : Side) (symbol : List UInt8) :
    (book.apply arith event).reach side symbol ≤ book.reach side symbol := by
  have sound := accounted.sound_of_found found
  have net := PositionTracker.netOf_applyEvent arith isFill (fun _ => accounted.trackerRoom)
    (accounted.inRange_fill found positive fits) symbol
  have total := OrderManager.totalOn_update (Order.key_fill arith event) rfl found symbol
    (Order.pendingOn side)
  unfold reach
  rw [Book.apply, OrderManager.applyEvent_of_isFill arith _ isFill, net]
  refine (add_le_add_right total.le _).trans ?_
  have moved : side.sign * (event.side.sign * event.fillQty) +
      ((order.fill arith event).pendingOn side - order.pendingOn side) ≤ 0 := by
    rw [sound.pendingOn_fill isOpen positive fits, sameSide]
    obtain own | own := order.side.sign_eq <;> obtain other | other := side.sign_eq <;>
      simp [own, other] <;> omega
  rw [symbolEq]
  split
  · linarith
  · simp

/-- Fills and endings never extend a reach. -/
theorem Accounted.reach_le_of_not_newOrder (accounted : book.Accounted) {event : OrderEvent}
    (taken : book.Takes arith event) (notNew : event.type ≠ .newOrder) (side : Side)
    (symbol : List UInt8) :
    (book.apply arith event).reach side symbol ≤ book.reach side symbol := by
  cases taken with
  | newOrder type => exact absurd type notNew
  | fill isFill found isOpen symbolEq sameSide positive fits =>
      exact accounted.reach_fill_le isFill found isOpen symbolEq sameSide positive fits side symbol
  | @close order type found isOpen =>
      have sound := accounted.sound_of_found found
      obtain ⟨state, dead, applied⟩ := apply_of_close arith book type
      rw [applied]
      exact reach_close_le found sound dead side symbol

end Book

namespace Gateway.FIXGateway

variable {arith : Arithmetic} {limits : RiskLimits} {gateway after : FIXGateway} {args : SendArgs}

/-- What the check nets away for an order: the open quantity on the other side of its
symbol. -/
def opposing (gateway : FIXGateway) (args : SendArgs) : Int :=
  gateway.orders.totalOn (fieldKey args.symbol) (Order.pendingOn args.side.opposite)

/-- What the position rules have looked at when an order is approved: true exposure before
and after it, as long as that is far from the range of 64 bits. -/
theorem Accepts.rules_passed (accepted : gateway.Accepts arith args) (positive : 0 < args.qty)
    (typed : gateway.limits.maxOrderQty < 2 ^ 31)
    (small : |gateway.projections.trueExposure arith args.symbol| ≤ 2 ^ 40) :
    (gateway.projections.trueExposure arith args.symbol + args.side.sign * args.qty ≤
        gateway.limits.maxNetPosition ∧
      arith.int64 (-gateway.limits.maxNetPosition) ≤
        gateway.projections.trueExposure arith args.symbol + args.side.sign * args.qty) ∧
    ¬(gateway.limits.allowPositionCross = false ∧
      ((0 < gateway.projections.trueExposure arith args.symbol ∧
          gateway.projections.trueExposure arith args.symbol + args.side.sign * args.qty < 0) ∨
        (gateway.projections.trueExposure arith args.symbol < 0 ∧
          0 < gateway.projections.trueExposure arith args.symbol +
            args.side.sign * args.qty))) := by
  obtain ⟨bounded, _, position⟩ := RiskChecker.check_eq_pass_iff.mp accepted.2
  obtain ⟨limit, cross, _⟩ := RiskChecker.checkProjected_eq_pass_iff.mp position
  obtain ⟨low, high⟩ := abs_le.mp small
  have held : arith.int64 (gateway.tracker.netQty args.symbol +
      gateway.orders.openExposure arith args.symbol) =
      gateway.projections.trueExposure arith args.symbol :=
    arith.int64_exact (by
      change InRange 64 (gateway.projections.trueExposure arith args.symbol)
      exact inRange_64 (by omega) (by omega))
  have projected : arith.int64 (gateway.projections.trueExposure arith args.symbol +
      args.side.sign * args.qty) =
      gateway.projections.trueExposure arith args.symbol + args.side.sign * args.qty := by
    apply arith.int64_exact
    obtain sign | sign := args.side.sign_eq <;> rw [sign] <;>
      exact inRange_64 (by omega) (by omega)
  rw [held, Book.signedQty_eq arith args.side positive (by omega), projected] at limit cross
  exact ⟨limit, cross⟩

/-- An approved order keeps true exposure within the limit. -/
theorem Accepts.abs_projected_le (accepted : gateway.Accepts arith args)
    (balanced : gateway.projections.Balanced) (positive : 0 < args.qty)
    (sized : gateway.limits.maxOrderQty ≤ 10000) (nonneg : 0 ≤ gateway.limits.maxNetPosition)
    (small : gateway.limits.maxNetPosition ≤ 5120000) :
    |gateway.projections.trueExposure arith args.symbol + args.side.sign * args.qty| ≤
      gateway.limits.maxNetPosition := by
  have exposure := balanced.abs_trueExposure_le arith args.symbol
  obtain ⟨upper, lower⟩ := (accepted.rules_passed positive (by omega) (by omega)).1
  have floor : arith.int64 (-gateway.limits.maxNetPosition) = -gateway.limits.maxNetPosition :=
    arith.int64_exact (inRange_64 (by omega) (by omega))
  rw [floor] at lower
  exact abs_le.mpr ⟨lower, upper⟩

/-- An approved order leaves its side's reach within the limit, up to what was netted
away. -/
theorem Accepts.reach_le (accepted : gateway.Accepts arith args)
    (balanced : gateway.projections.Balanced) (positive : 0 < args.qty)
    (sized : gateway.limits.maxOrderQty ≤ 10000) (nonneg : 0 ≤ gateway.limits.maxNetPosition)
    (small : gateway.limits.maxNetPosition ≤ 5120000) :
    gateway.projections.reach args.side (fieldKey args.symbol) + args.qty ≤
      gateway.limits.maxNetPosition + gateway.opposing args := by
  have projected := abs_le.mp (accepted.abs_projected_le balanced positive sized nonneg small)
  have netted := Book.sign_mul_trueExposure
    (OrderManager.openExposure_eq_totalOn arith balanced.coherent args.symbol) args.side
  change _ = _ - gateway.opposing args at netted
  obtain sign | sign := args.side.sign_eq <;> rw [sign] at netted projected <;> omega

/-- The orders whose netting stays within a symbol's allowance. -/
def NettedWithin (allowance : List UInt8 → Int) (gateway : FIXGateway) (args : SendArgs) : Prop :=
  gateway.opposing args ≤ allowance (fieldKey args.symbol)

/-- Along a conforming run, no reach passes the limit by more than the allowance. -/
theorem ConformingRun.reach_le {allowance : List UInt8 → Int}
    (nonneg : 0 ≤ limits.maxNetPosition) (sized : limits.maxOrderQty ≤ 10000)
    (small : limits.maxNetPosition ≤ 5120000) (allowed : ∀ symbol, 0 ≤ allowance symbol)
    (run : ConformingRun arith (NettedWithin allowance) limits gateway) (side : Side)
    (symbol : List UInt8) :
    gateway.projections.reach side symbol ≤ limits.maxNetPosition + allowance symbol := by
  induction run with
  | refl =>
      have flat : (start arith limits EventLog.empty).projections.reach side symbol = 0 := by
        change side.sign * 0 + 0 = 0
        simp
      have := allowed symbol
      omega
  | @tail before last run step ih =>
      have sameLimits := (ConformingRun.inSession run).limits_eq
      have balanced := (ConformingRun.reachable sized run).balanced
      obtain unchanged | ⟨event, admitted, applied, approved⟩ :=
        step.simulates run (sameLimits ▸ sized)
      · rw [unchanged]
        exact ih
      · rw [applied]
        by_cases type : event.type = .newOrder
        · obtain ⟨args, rfl, accepted, netted, positive⟩ := approved type
          have bound := accepted.reach_le balanced positive (sameLimits ▸ sized)
            (sameLimits ▸ nonneg) (sameLimits ▸ small)
          rw [sameLimits] at bound
          cases admitted.taken with
          | fill isFill => cases isFill
          | close other => cases other <;> contradiction
          | newOrder _ isNew room =>
              rw [Book.reach_newOrder type isNew room]
              have onSymbol := symbol_newOrderEvent before args
              have netted : before.opposing args ≤ allowance (fieldKey args.symbol) := netted
              rw [onSymbol]
              split
              · rename_i hit
                obtain ⟨rfl, sameSign⟩ := hit
                change args.side.sign = side.sign at sameSign
                rw [← Book.reach_congr sameSign]
                change _ + args.qty ≤ _
                omega
              · rw [add_zero]
                exact ih
        · exact (balanced.accounted.reach_le_of_not_newOrder admitted.taken type side symbol).trans
            ih

/-- Against a conforming exchange, a symbol's net position passes the limit by at most
the opposite-side quantity that was open when an order on it was approved. A strategy
that never has both sides of a symbol open stays within the limit. -/
theorem net_position_within_allowance (allowance : List UInt8 → Int)
    (positive : 0 < limits.maxOrderQty) (sized : limits.maxOrderQty ≤ 10000)
    (covers : limits.maxOrderQty ≤ limits.maxNetPosition) (allowed : ∀ symbol, 0 ≤ allowance symbol)
    (run : ConformingRun arith (NettedWithin allowance) limits gateway) (sym : StringView) :
    |gateway.tracker.netQty sym| ≤ limits.maxNetPosition + allowance (fieldKey sym) := by
  have balanced := (ConformingRun.reachable sized run).balanced
  rw [PositionTracker.netQty_eq_netOf]
  by_cases small : limits.maxNetPosition ≤ 5120000
  · exact Side.abs_le_of_sides fun side =>
      (balanced.accounted.sign_mul_netOf_le side (fieldKey sym)).trans
        (run.reach_le (positive.le.trans covers) sized small allowed side (fieldKey sym))
  · -- A limit this wide is out of reach of 512 orders of at most 10,000.
    have net : |gateway.tracker.netOf (fieldKey sym)| ≤ 5120000 := balanced.abs_netOf_le _
    have := allowed (fieldKey sym)
    omega

/-! ## A netted sell -/

/-- One share at a time, one share at most. -/
def tightLimits : RiskLimits := { maxOrderQty := 1, maxNetPosition := 1 }

/-- One share of the sample symbol. -/
def oneShare (side : Side) : SendArgs := { sampleArgs with side := side }

/-- The gateway after an order for one share. -/
def sent (gateway : FIXGateway) (side : Side) : FIXGateway :=
  (gateway.sendOrder .wrapping (oneShare side) 0 true).gateway

/-- Buy, sell, buy again: the second buy is approved because the sell is netted. -/
def straddled : FIXGateway :=
  (((start .wrapping tightLimits EventLog.empty).onLogon.sent .buy).sent .sell).sent .buy

/-- Both buys are filled before the sell. -/
def overfilled : FIXGateway :=
  (straddled.delivered (filledReport (ascii "ORD0"))).delivered (filledReport (ascii "ORD2"))

theorem conformingReport_tradedReport {clOrdId : List UInt8} {side : Side} {shares : ℚ}
    {order : Order} (found : gateway.orders.find (StringView.ofList clOrdId) = some order)
    (pending : (order.isOpen ∧ order.symbol.string = ascii "AAPL" ∧ order.side = side) ∧
      0 < Arithmetic.wrapping.int32 (truncate shares) ∧
      Arithmetic.wrapping.int32 (truncate shares) ≤ order.remainingQty .wrapping) :
    ConformingReport .wrapping gateway.orders (tradedReport clOrdId side shares) := by
  rw [OrderManager.find_eq_find?] at found
  obtain ⟨member, sameKey⟩ := SlotTable.find?_eq_some_iff.mp found
  obtain ⟨⟨isOpen, symbol, rfl⟩, positive, fits⟩ := pending
  exact .fill member isOpen (.inr rfl) rfl sameKey.symm rfl (by rw [symbol]; decide) rfl rfl rfl
    positive fits

theorem conformingReport_filledReport {clOrdId : List UInt8} {order : Order}
    (found : gateway.orders.find (StringView.ofList clOrdId) = some order)
    (pending : (order.isOpen ∧ order.symbol.string = ascii "AAPL" ∧ order.side = .buy) ∧
      order.remainingQty .wrapping = 1) :
    ConformingReport .wrapping gateway.orders (filledReport clOrdId) := by
  have one : Arithmetic.wrapping.int32 (truncate 1) = 1 := by decide
  change ConformingReport .wrapping gateway.orders (tradedReport clOrdId .buy 1)
  exact conformingReport_tradedReport found ⟨pending.1, by rw [one]; decide,
    by rw [one, pending.2]⟩

/-- The run that overfills, under any restriction that lets one share be netted. -/
theorem conformingRun_overfilled {allowed : FIXGateway → SendArgs → Prop}
    (oneNetted : ∀ gateway args, gateway.opposing args ≤ 1 → allowed gateway args) :
    ConformingRun .wrapping allowed tightLimits overfilled := by
  have connected : ConformingRun .wrapping allowed tightLimits
      (start .wrapping tightLimits EventLog.empty).onLogon := .single .onLogon
  have bought := connected.tail (.send (oneShare .buy) 0 true (by decide) (by decide) (by decide)
    fun _ => oneNetted _ _ (by decide +kernel))
  have sold := bought.tail (.send (oneShare .sell) 0 true (by decide) (by decide) (by decide)
    fun _ => oneNetted _ _ (by decide +kernel))
  have again := sold.tail (.send (oneShare .buy) 0 true (by decide) (by decide) (by decide)
    fun _ => oneNetted _ _ (by decide +kernel))
  have first : ConformingReport .wrapping straddled.orders (filledReport (ascii "ORD0")) :=
    conformingReport_filledReport (Option.eq_some_of_isSome (by decide +kernel)) (by decide +kernel)
  have survived : straddled.fromApp .wrapping (.executionReport (filledReport (ascii "ORD0"))) 0 =
      .returned (straddled.delivered (filledReport (ascii "ORD0"))) := rfl
  have filled := again.tail (.report _ 0 first survived)
  have second : ConformingReport .wrapping
      (straddled.delivered (filledReport (ascii "ORD0"))).orders (filledReport (ascii "ORD2")) :=
    conformingReport_filledReport (Option.eq_some_of_isSome (by decide +kernel)) (by decide +kernel)
  exact filled.tail (.report _ 0 second rfl)

/-- With one share netted the limit is passed by one share. -/
theorem net_position_within_allowance_overfilled :
    overfilled.tracker.netQty sampleArgs.symbol = 2 ∧
      |overfilled.tracker.netQty sampleArgs.symbol| ≤ tightLimits.maxNetPosition + 1 :=
  ⟨by decide +kernel,
    net_position_within_allowance (fun _ => 1) (by decide) (by decide) (by decide)
      (fun _ => by decide) (conformingRun_overfilled fun _ _ netted => netted) sampleArgs.symbol⟩

/-- The check alone does not keep the net position within its limit. -/
theorem net_position_passes_limit :
    ¬∀ (limits : RiskLimits) (gateway : FIXGateway) (sym : StringView),
      0 < limits.maxOrderQty → limits.maxOrderQty ≤ 10000 →
      limits.maxOrderQty ≤ limits.maxNetPosition →
      ConformingRun .wrapping (fun _ _ => True) limits gateway →
      |gateway.tracker.netQty sym| ≤ limits.maxNetPosition := by
  intro always
  have bounded := always tightLimits overfilled sampleArgs.symbol (by decide) (by decide)
    (by decide) (conformingRun_overfilled fun _ _ _ => trivial)
  have exceeded : ¬|overfilled.tracker.netQty sampleArgs.symbol| ≤ tightLimits.maxNetPosition := by
    decide +kernel
  exact exceeded bounded

end Gateway.FIXGateway

end Hft
