import Hft.Risk.PositionLimit

/-!
# A check that races with the fills

`check` reads the position, then the open orders, then the realized profit through the pointer
it was handed, and takes no lock. Reports that are booked between the reads make it look at a
position from before a fill and at orders from after it, so that the fill is in neither figure.
The limits themselves may be replaced by `set_limits` at any time. What is left of the position
limit is `racing_position_bounded`: each order may pass it by what it netted away and by what
was filled between its two reads, and by no more.
-/

namespace Hft

open Logical

namespace RiskChecker

/-- `check`, with the states of the components at its three reads. -/
def checkRacing (arith : Arithmetic) (limits : RiskLimits) (sym : StringView) (side : Side)
    (qty priceFp : Int) (first : PositionTracker) (second : OrderManager)
    (third : PositionTracker) : RiskResult :=
  if limits.maxOrderQty < qty then .failMaxQty
  else if limits.maxOrderNotional < arith.int64 (qty * priceFp) then .failMaxNotional
  else
    let filledQty := first.netQty sym
    let pendingQty := second.openExposure arith sym
    let trueQty := arith.int64 (filledQty + pendingQty)
    checkProjected arith limits trueQty (signedQty arith side qty)
      ((first.get sym).bind fun _ => (third.get sym).map Position.realizedPnl)

/-- Undisturbed, it is the check. -/
theorem checkRacing_still (arith : Arithmetic) (limits : RiskLimits) (sym : StringView)
    (side : Side) (qty priceFp : Int) (tracker : PositionTracker) (orders : OrderManager) :
    checkRacing arith limits sym side qty priceFp tracker orders tracker =
      check arith limits sym side qty priceFp tracker orders := by
  unfold checkRacing check
  cases tracker.get sym <;> rfl

theorem checkRacing_eq_pass_iff {arith : Arithmetic} {limits : RiskLimits} {sym : StringView}
    {side : Side} {qty priceFp : Int} {first third : PositionTracker} {second : OrderManager} :
    checkRacing arith limits sym side qty priceFp first second third = .pass ↔
      qty ≤ limits.maxOrderQty ∧ arith.int64 (qty * priceFp) ≤ limits.maxOrderNotional ∧
      checkProjected arith limits (arith.int64 (first.netQty sym + second.openExposure arith sym))
        (signedQty arith side qty)
        ((first.get sym).bind fun _ => (third.get sym).map Position.realizedPnl) = .pass := by
  simp only [checkRacing]
  split_ifs with quantity notional
  · simp [quantity]
  · simp [notional]
  · simp [not_lt.mp quantity, not_lt.mp notional]

end RiskChecker

namespace Gateway.FIXGateway

/-- `send_order` from the passed check on. -/
def place (arith : Arithmetic) (gateway : FIXGateway) (args : SendArgs) (now : Nat)
    (sessionFound : Bool) : SendOutcome :=
  let (oid, numbered) := gateway.nextOrderId
  let event := makeNewOrder args.symbol args.side args.qty args.priceFp (StringView.ofList oid)
  match numbered.log.append now event with
  | .error thrown => ⟨numbered, none, .error thrown⟩
  | .ok (log, _) =>
      let recorded := { numbered with
        log := log
        orders := numbered.orders.applyEvent arith event }
      ⟨recorded, some (MessageTranslator.toNewOrderSingle event),
        if sessionFound then .ok oid else .error .sessionNotFound⟩

section Place

variable {arith : Arithmetic} {gateway : FIXGateway} {args : SendArgs} {now : Nat}
  {sessionFound : Bool}

theorem sendOrder_of_accepts (accepted : gateway.Accepts arith args) :
    gateway.sendOrder arith args now sessionFound =
      gateway.place arith args now sessionFound := by
  obtain ⟨connected, passed⟩ := accepted
  simp only [sendOrder, connected, passed, place]
  rfl

/-- A placed order meets a full log or is recorded. -/
theorem place_cases (arith : Arithmetic) (gateway : FIXGateway) (args : SendArgs) (now : Nat)
    (sessionFound : Bool) :
    (maxEvents ≤ gateway.log.size ∧
      (gateway.place arith args now sessionFound).gateway = gateway.nextOrderId.2) ∨
    ∃ log : EventLog, gateway.log.size < maxEvents ∧
      log.events = gateway.log.events ++
        [EventLog.stamp gateway.log.size now (gateway.newOrderEvent args)] ∧
      (gateway.place arith args now sessionFound).gateway =
        { gateway.nextOrderId.2 with
          log := log
          orders := gateway.orders.applyEvent arith (gateway.newOrderEvent args) } := by
  by_cases room : gateway.log.size < maxEvents
  · right
    obtain ⟨log, appended⟩ :=
      EventLog.exists_append_of_room room now (gateway.newOrderEvent args)
    refine ⟨log, room, (EventLog.append_eq_ok_iff.mp appended).2.1, ?_⟩
    simp only [newOrderEvent] at appended
    simp [place, nextOrderId, appended, newOrderEvent]
  · left
    have full := Nat.not_lt.mp room
    exact ⟨full, by simp [place, nextOrderId, EventLog.append_of_full full]⟩

end Place

/-! ## Runs -/

/-- A report on an open order, booked by the I/O thread. -/
def Reported (arith : Arithmetic) (gateway after : FIXGateway) : Prop :=
  ∃ report now, ConformingReport arith gateway.orders report ∧
    gateway.fromApp arith (.executionReport report) now = .returned after

/-- Any number of them. -/
abbrev Reports (arith : Arithmetic) : FIXGateway → FIXGateway → Prop :=
  Relation.ReflTransGen (Reported arith)

/-- What an order may pass the limit by: the open quantity it netted away when it read the
orders, and what the fills since it read the position had added in its own direction. -/
def blindSpot (args : SendArgs) (first second : FIXGateway) : Int :=
  second.opposing args + args.side.sign *
    (second.tracker.netQty args.symbol - first.tracker.netQty args.symbol)

/-- One call, with the reports that are booked while it runs. An order that the check turns down
leaves only those behind. -/
inductive RacingStep (arith : Arithmetic) (permitted : RiskLimits → Prop)
    (allowance : List UInt8 → Int) (gateway : FIXGateway) : FIXGateway → Prop where
  | send {second third : FIXGateway} (args : SendArgs) (now : Nat) (sessionFound : Bool)
      (positive : 0 < args.qty) (price : 0 ≤ args.priceFp)
      (slot : third.orders.orderCount < maxOrders) (connected : gateway.connected = true)
      (during : Reports arith gateway second) (since : Reports arith second third)
      (passed : RiskChecker.checkRacing arith gateway.limits args.symbol args.side args.qty
        args.priceFp gateway.tracker second.orders third.tracker = .pass)
      (within : blindSpot args gateway second ≤ allowance (fieldKey args.symbol)) :
      RacingStep arith permitted allowance gateway
        (third.place arith args now sessionFound).gateway
  | reported {after : FIXGateway} (reported : Reported arith gateway after) :
      RacingStep arith permitted allowance gateway after
  | setLimits (limits : RiskLimits) (allowed : permitted limits) :
      RacingStep arith permitted allowance gateway { gateway with limits := limits }
  | onLogon : RacingStep arith permitted allowance gateway gateway.onLogon
  | onLogout : RacingStep arith permitted allowance gateway gateway.onLogout

variable {arith : Arithmetic} {limits : RiskLimits} {gateway after : FIXGateway}

/-- The state between calls: ids numbered without a gap, both projections in balance, permitted
limits. -/
structure Steady (arith : Arithmetic) (permitted : RiskLimits → Prop) (gateway : FIXGateway) :
    Prop where
  numbered : gateway.Numbered arith 0
  balanced : gateway.projections.Balanced
  limits : permitted gateway.limits

/-- A report leaves the projections alone or applies an event that is no new order. -/
theorem Reported.cases (reported : Reported arith gateway after) :
    after.projections = gateway.projections ∨
    ∃ event, event.type ≠ .newOrder ∧ gateway.projections.Takes arith event ∧
      after.projections = gateway.projections.apply arith event := by
  obtain ⟨report, now, conforming, returned⟩ := reported
  obtain unchanged | ⟨event, translated, taken, applied⟩ := report_takes conforming returned
  · exact .inl unchanged
  · exact .inr ⟨event, MessageTranslator.type_ne_newOrder translated, taken, applied⟩

namespace Steady

variable {permitted : RiskLimits → Prop}

theorem reported (steady : gateway.Steady arith permitted)
    (reported : Reported arith gateway after) : after.Steady arith permitted := by
  have sameLimits : after.limits = gateway.limits := by
    obtain ⟨_, now, _, returned⟩ := reported
    exact SessionStep.limits_eq (.fromApp _ now returned)
  have numbered : after.Numbered arith 0 := by
    obtain ⟨_, now, _, returned⟩ := reported
    exact steady.numbered.step (.fromApp _ now returned)
  refine ⟨numbered, ?_, sameLimits ▸ steady.limits⟩
  obtain unchanged | ⟨event, notNew, taken, applied⟩ := reported.cases
  · rw [unchanged]
    exact steady.balanced
  · rw [applied]
    exact steady.balanced.apply ⟨taken, fun isNew => absurd isNew notNew⟩

/-- Reports leave the state steady and extend no reach. -/
theorem reports (steady : gateway.Steady arith permitted) (reports : Reports arith gateway after) :
    after.Steady arith permitted ∧ after.limits = gateway.limits ∧ ∀ side symbol,
      after.projections.reach side symbol ≤ gateway.projections.reach side symbol := by
  induction reports with
  | refl => exact ⟨steady, rfl, fun _ _ => le_rfl⟩
  | tail _ taken ih =>
      obtain ⟨before, sameLimits, shorter⟩ := ih
      refine ⟨before.reported taken, ?_, fun side symbol => ?_⟩
      · obtain ⟨_, now, _, returned⟩ := taken
        exact (SessionStep.limits_eq (.fromApp _ now returned)).trans sameLimits
      · refine le_trans ?_ (shorter side symbol)
        obtain unchanged | ⟨event, notNew, fits, applied⟩ := taken.cases
        · rw [unchanged]
        · rw [applied]
          exact before.balanced.accounted.reach_le_of_not_newOrder fits notNew side symbol

/-- Placing an order extends the reach of its own side and symbol by its quantity. -/
theorem place (steady : gateway.Steady arith permitted) {args : SendArgs} (positive : 0 < args.qty)
    (sized : args.qty ≤ 10000) (slot : gateway.orders.orderCount < maxOrders) (now : Nat)
    (sessionFound : Bool) :
    (gateway.place arith args now sessionFound).gateway.Steady arith permitted ∧
    ∀ side symbol, (gateway.place arith args now sessionFound).gateway.projections.reach side
      symbol ≤ gateway.projections.reach side symbol +
        if fieldKey args.symbol = symbol ∧ args.side.sign = side.sign then args.qty else 0 := by
  have numbered := steady.numbered
  obtain ⟨full, stopped⟩ | ⟨log, room, events, placed⟩ :=
    place_cases arith gateway args now sessionFound
  · rw [stopped]
    refine ⟨⟨⟨numbered.logged, numbered.keys, fun room => absurd room (Nat.not_lt.mpr full),
      fun room => absurd room (Nat.not_lt.mpr full), numbered.replayedLe⟩, steady.balanced,
      steady.limits⟩, fun side symbol => ?_⟩
    refine (le_refl (gateway.projections.reach side symbol)).trans (le_add_of_nonneg_right ?_)
    split <;> omega
  · rw [placed]
    have isNew : gateway.orders.find? (gateway.newOrderEvent args).orderId.string = none := by
      have count := numbered.count room
      rw [SlotTable.find?_eq_none_iff_keys, orderId_newOrderEvent, numbered.mem_keys_iff]
      omega
    have admitted : gateway.projections.Admits arith (gateway.newOrderEvent args) :=
      ⟨.newOrder rfl isNew slot positive (lt_of_le_of_lt sized (by norm_num)), fun _ => sized⟩
    have applied : projections { gateway.nextOrderId.2 with
        log := log
        orders := gateway.orders.applyEvent arith (gateway.newOrderEvent args) } =
        gateway.projections.apply arith (gateway.newOrderEvent args) := by
      simp only [projections, Book.apply]
      rw [PositionTracker.applyEvent_of_not_fill arith _ rfl]
      rfl
    refine ⟨⟨numbered.recorded room events, ?_, steady.limits⟩, fun side symbol => ?_⟩
    · rw [applied]
      exact steady.balanced.apply admitted
    · rw [applied, Book.reach_newOrder rfl isNew slot, symbol_newOrderEvent]
      exact le_rfl

end Steady

/-- The limits that a run may be given. -/
structure Permitted (bound : Int) (limits : RiskLimits) : Prop where
  nonneg : 0 ≤ limits.maxNetPosition
  bounded : limits.maxNetPosition ≤ bound
  sized : limits.maxOrderQty ≤ 10000

/-- An order that passes is within the limit, but for the blind spot of its two reads. -/
theorem reach_le_of_passed {first second : FIXGateway} {third : PositionTracker} {args : SendArgs}
    (firstBalanced : first.projections.Balanced) (secondBalanced : second.projections.Balanced)
    (positive : 0 < args.qty) (nonneg : 0 ≤ limits.maxNetPosition)
    (small : limits.maxNetPosition ≤ 5120000) (sized : limits.maxOrderQty ≤ 10000)
    (passed : RiskChecker.checkRacing arith limits args.symbol args.side args.qty args.priceFp
      first.tracker second.orders third = .pass) :
    second.projections.reach args.side (fieldKey args.symbol) + args.qty ≤
      limits.maxNetPosition + blindSpot args first second := by
  obtain ⟨bounded, _, position⟩ := RiskChecker.checkRacing_eq_pass_iff.mp passed
  obtain ⟨⟨upper, lower⟩, _⟩ := RiskChecker.checkProjected_eq_pass_iff.mp position
  have firstNet := abs_le.mp (firstBalanced.abs_netOf_le (fieldKey args.symbol))
  have secondNet := abs_le.mp (secondBalanced.abs_netOf_le (fieldKey args.symbol))
  have exposure := abs_le.mp (secondBalanced.abs_trueExposure_le arith args.symbol)
  change _ ≤ first.tracker.netOf _ ∧ first.tracker.netOf _ ≤ _ at firstNet
  change _ ≤ second.tracker.netOf _ ∧ second.tracker.netOf _ ≤ _ at secondNet
  rw [← PositionTracker.netQty_eq_netOf] at firstNet secondNet
  have whole : second.projections.trueExposure arith args.symbol =
    second.tracker.netQty args.symbol + second.orders.openExposure arith args.symbol := rfl
  have seen : arith.int64 (first.tracker.netQty args.symbol +
      second.orders.openExposure arith args.symbol) =
      first.tracker.netQty args.symbol + second.orders.openExposure arith args.symbol :=
    arith.int64_exact (inRange_64 (by omega) (by omega))
  have floor : arith.int64 (-limits.maxNetPosition) = -limits.maxNetPosition :=
    arith.int64_exact (inRange_64 (by omega) (by omega))
  have netted := Book.sign_mul_trueExposure
    (OrderManager.openExposure_eq_totalOn arith secondBalanced.coherent args.symbol) args.side
  change _ = _ - second.opposing args at netted
  rw [seen, Book.signedQty_eq arith args.side positive (by omega)] at upper lower
  unfold blindSpot
  obtain sign | sign := args.side.sign_eq <;> rw [sign] at upper lower netted ⊢
  · rw [arith.int64_exact (inRange_64 (by omega) (by omega))] at upper
    omega
  · rw [floor, arith.int64_exact (inRange_64 (by omega) (by omega))] at lower
    omega

/-- What holds between the calls of a racing run. -/
structure Restrained (arith : Arithmetic) (bound : Int) (allowance : List UInt8 → Int)
    (gateway : FIXGateway) : Prop where
  steady : gateway.Steady arith (Permitted bound)
  within : bound ≤ 5120000 → ∀ side symbol,
    gateway.projections.reach side symbol ≤ bound + allowance symbol

theorem Restrained.step {bound : Int} {allowance : List UInt8 → Int}
    (restrained : gateway.Restrained arith bound allowance)
    (taken : RacingStep arith (Permitted bound) allowance gateway after) :
    after.Restrained arith bound allowance := by
  have numbered := restrained.steady.numbered
  have permitted := restrained.steady.limits
  cases taken with
  | @send second third args now sessionFound positive price slot connected during since passed
      within =>
      obtain ⟨secondSteady, _, _⟩ := restrained.steady.reports during
      obtain ⟨thirdSteady, _, shorter⟩ := secondSteady.reports since
      have sized : args.qty ≤ 10000 :=
        (RiskChecker.checkRacing_eq_pass_iff.mp passed).1.trans permitted.sized
      obtain ⟨placed, longer⟩ := thirdSteady.place positive sized slot now sessionFound
      refine ⟨placed, fun small side symbol => (longer side symbol).trans ?_⟩
      have earlier := (shorter side symbol).trans
        ((restrained.steady.reports during).2.2 side symbol)
      split
      · rename_i hit
        obtain ⟨rfl, sameSign⟩ := hit
        have approved := reach_le_of_passed restrained.steady.balanced secondSteady.balanced
          positive permitted.nonneg (permitted.bounded.trans small) permitted.sized passed
        have ownReach := shorter args.side (fieldKey args.symbol)
        rw [← Book.reach_congr sameSign]
        have := permitted.bounded
        omega
      · rw [add_zero]
        exact earlier.trans (restrained.within small side symbol)
  | reported reported =>
      obtain ⟨steady, _, shorter⟩ := restrained.steady.reports (.single reported)
      exact ⟨steady, fun small side symbol =>
        (shorter side symbol).trans (restrained.within small side symbol)⟩
  | setLimits limits allowed =>
      exact ⟨⟨⟨numbered.logged, numbered.keys, numbered.count, numbered.counter,
        numbered.replayedLe⟩, restrained.steady.balanced, allowed⟩, restrained.within⟩
  | onLogon =>
      exact ⟨⟨numbered.step .onLogon, restrained.steady.balanced, permitted⟩, restrained.within⟩
  | onLogout =>
      exact ⟨⟨numbered.step .onLogout, restrained.steady.balanced, permitted⟩, restrained.within⟩

/-- Nothing is held or pending when a process starts on an empty log. -/
theorem reach_start_empty (side : Side) (symbol : List UInt8) :
    (start arith limits EventLog.empty).projections.reach side symbol = 0 := by
  change side.sign * 0 + 0 = 0
  simp

theorem restrained_start {bound : Int} {allowance : List UInt8 → Int}
    (allowed : ∀ symbol, 0 ≤ allowance symbol) (permitted : Permitted bound limits) :
    (start arith limits EventLog.empty).Restrained arith bound allowance where
  steady := ⟨numbered_start (Produced.gapless .empty) limits,
    @Book.Reachable.balanced arith _ .refl, permitted⟩
  within small side symbol := by
    have flat := @reach_start_empty arith limits side symbol
    have := allowed symbol
    have := permitted.nonneg
    have := permitted.bounded
    omega

/-- However reports fall between the reads of the checks, and however the limits are moved below
`bound`, no net position passes `bound` by more than the largest blind spot of the orders on its
symbol. -/
theorem racing_position_bounded {bound : Int} {allowance : List UInt8 → Int}
    (allowed : ∀ symbol, 0 ≤ allowance symbol) (permitted : Permitted bound limits)
    (run : Relation.ReflTransGen (RacingStep arith (Permitted bound) allowance)
      (start arith limits EventLog.empty) gateway) (sym : StringView) :
    |gateway.tracker.netQty sym| ≤ bound + allowance (fieldKey sym) := by
  have restrained : gateway.Restrained arith bound allowance := by
    induction run with
    | refl => exact restrained_start allowed permitted
    | tail _ taken ih => exact ih.step taken
  have balanced := restrained.steady.balanced
  rw [PositionTracker.netQty_eq_netOf]
  by_cases small : bound ≤ 5120000
  · exact Side.abs_le_of_sides fun side =>
      (balanced.accounted.sign_mul_netOf_le side (fieldKey sym)).trans
        (restrained.within small side (fieldKey sym))
  · -- A bound this wide is out of reach of 512 orders of at most 10,000.
    have net : |gateway.tracker.netOf (fieldKey sym)| ≤ 5120000 := balanced.abs_netOf_le _
    have := allowed (fieldKey sym)
    omega

/-! ## A fill in the blind spot -/

/-- A share is on order. -/
def waiting : FIXGateway := (start .wrapping tightLimits EventLog.empty).onLogon.sent .buy

/-- It is filled while a second order is being checked. -/
def caught : FIXGateway := waiting.delivered (filledReport (ascii "ORD0"))

/-- The second order passed the check, and is filled, too. -/
def overrun : FIXGateway :=
  (caught.place .wrapping (oneShare .buy) 0 true).gateway.delivered (filledReport (ascii "ORD1"))

/-- The position was read before the fill and the orders after it: two shares are held where the
limit is one, and the blind spot is that fill. Neither before it nor after it would the check
have passed. -/
theorem racing_position_bounded_overrun :
    (∀ still ∈ [waiting, caught], RiskChecker.check .wrapping still.limits sampleArgs.symbol .buy 1
      0 still.tracker still.orders = .failPositionLimit) ∧
    overrun.tracker.netQty sampleArgs.symbol = 2 ∧
      |overrun.tracker.netQty sampleArgs.symbol| ≤ tightLimits.maxNetPosition + 1 := by
  have connected : Relation.ReflTransGen (RacingStep .wrapping (Permitted 1) fun _ => 1)
      (start .wrapping tightLimits EventLog.empty)
      (start .wrapping tightLimits EventLog.empty).onLogon := .single .onLogon
  have ordered := connected.tail (.send (oneShare .buy) 0 true (by decide) (by decide) (by decide)
    rfl .refl .refl (by decide +kernel) (by decide +kernel))
  have first : ConformingReport .wrapping waiting.orders (filledReport (ascii "ORD0")) :=
    conformingReport_filledReport (Option.eq_some_of_isSome (by decide +kernel)) (by decide +kernel)
  have filled : Reported .wrapping waiting caught := ⟨_, 0, first, rfl⟩
  have raced := ordered.tail (.send (oneShare .buy) 0 true (by decide) (by decide)
    (show caught.orders.orderCount < maxOrders by decide +kernel) rfl (.single filled) .refl
    (by decide +kernel) (by decide +kernel))
  have second : ConformingReport .wrapping
      (caught.place .wrapping (oneShare .buy) 0 true).gateway.orders
      (filledReport (ascii "ORD1")) :=
    conformingReport_filledReport (Option.eq_some_of_isSome (by decide +kernel)) (by decide +kernel)
  have run := raced.tail (.reported ⟨_, 0, second, rfl⟩)
  exact ⟨by decide +kernel, by decide +kernel,
    racing_position_bounded (fun _ => by decide) ⟨by decide, by decide, by decide⟩ run
      sampleArgs.symbol⟩

end Gateway.FIXGateway

end Hft
