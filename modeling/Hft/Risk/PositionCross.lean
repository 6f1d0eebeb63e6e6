import Hft.Risk.PositionLimit

/-!
# When a fill can flip a position

The cross guard compares the sign of `net_qty + open_exposure` before and after an order,
and the flip itself happens to `net_qty`, one fill at a time. A symbol is safe from flips
as long as some side cannot take its position past zero, which in terms of `reach` is
`reach side ≤ 0`. Fills and endings keep that; the guard keeps it for an order against
the position, unless open orders on the position's side are netted into the figure it looks
at, or that figure is zero.
-/

namespace Hft

open Logical

/-- From strictly long to strictly short, or back. -/
def Crosses (before after : Int) : Prop := (0 < before ∧ after < 0) ∨ (before < 0 ∧ 0 < after)

namespace Book

variable {arith : Arithmetic} {book : Book}

/-- One side of the symbol cannot take its position past zero. -/
def Covered (book : Book) (symbol : List UInt8) : Prop := ∃ side, book.reach side symbol ≤ 0

theorem covered_initial (symbol : List UInt8) : initial.Covered symbol := by
  refine ⟨.buy, ?_⟩
  change Side.buy.sign * 0 + 0 ≤ 0
  simp

/-- Two positions that the same side cannot take past zero are not on two sides of it. -/
theorem Accounted.not_crosses {next : Book} (accounted : book.Accounted)
    (accountedNext : next.Accounted) {side : Side} {symbol : List UInt8}
    (before : book.reach side symbol ≤ 0) (after : next.reach side symbol ≤ 0) :
    ¬Crosses (book.tracker.netOf symbol) (next.tracker.netOf symbol) := by
  have held := (accounted.sign_mul_netOf_le side symbol).trans before
  have holds := (accountedNext.sign_mul_netOf_le side symbol).trans after
  unfold Crosses
  obtain sign | sign := side.sign_eq <;> rw [sign] at held holds <;> omega

/-- Fills and endings keep a symbol covered, and do not flip it. -/
theorem Accounted.covered_of_not_newOrder (accounted : book.Accounted) {event : OrderEvent}
    (taken : book.Takes arith event) (notNew : event.type ≠ .newOrder) {symbol : List UInt8}
    (covered : book.Covered symbol) :
    (book.apply arith event).Covered symbol ∧
      ¬Crosses (book.tracker.netOf symbol) ((book.apply arith event).tracker.netOf symbol) := by
  obtain ⟨side, before⟩ := covered
  have after := (accounted.reach_le_of_not_newOrder taken notNew side symbol).trans before
  exact ⟨⟨side, after⟩, accounted.not_crosses (accounted.apply taken) before after⟩

end Book

namespace Gateway.FIXGateway

variable {arith : Arithmetic} {limits : RiskLimits} {gateway after : FIXGateway} {args : SendArgs}

/-- No order on the other side of the symbol is open. -/
def Unopposed (gateway : FIXGateway) (args : SendArgs) : Prop :=
  ∀ order ∈ gateway.orders.slots, order.isOpen → order.symbol.string = fieldKey args.symbol →
    order.side.sign = args.side.sign

/-- The open quantity of the symbol, both sides taken together. -/
def openQty (gateway : FIXGateway) (sym : StringView) : Int :=
  gateway.orders.totalOn (fieldKey sym) fun order => |order.pendingSigned|

/-- The orders that the guard judges by the position they can flip: an order with the
position, or an order with nothing open on the other side to net against, on a flat symbol or
while the figure of the guard is exact and not zero. -/
def Unnetted (arith : Arithmetic) (gateway : FIXGateway) (args : SendArgs) : Prop :=
  0 < args.side.sign * gateway.tracker.netQty args.symbol ∨
  gateway.Unopposed args ∧
    (gateway.tracker.netQty args.symbol = 0 ∨
      gateway.tracker.netQty args.symbol + gateway.orders.openExposure arith args.symbol ≠ 0 ∧
        gateway.openQty args.symbol < 2 ^ 31)

theorem Unopposed.opposing_eq_zero (unopposed : gateway.Unopposed args) :
    gateway.opposing args = 0 := by
  apply List.sum_eq_zero
  intro value member
  obtain ⟨order, inTable, rfl⟩ := List.mem_map.mp member
  split
  · rename_i onSymbol
    apply if_neg
    rintro ⟨isOpen, otherSide⟩
    have own := unopposed order inTable isOpen onSymbol
    rw [otherSide, Side.sign_opposite] at own
    obtain sign | sign := args.side.sign_eq <;> omega
  · rfl

/-- While its figure is exact, the guard keeps an order from flipping true exposure. -/
theorem Accepts.not_crosses (accepted : gateway.Accepts arith args)
    (accounted : gateway.projections.Accounted) (positive : 0 < args.qty)
    (typed : gateway.limits.maxOrderQty < 2 ^ 31)
    (guarded : gateway.limits.allowPositionCross = false)
    (scanned : gateway.orders.openExposure arith args.symbol =
      gateway.orders.totalOn (fieldKey args.symbol) Order.pendingSigned) :
    ¬Crosses (gateway.projections.trueExposure arith args.symbol)
      (gateway.projections.trueExposure arith args.symbol + args.side.sign * args.qty) := by
  have small : |gateway.projections.trueExposure arith args.symbol| ≤ 2 ^ 40 := by
    have account := accounted.netQty_add_pending args.symbol
    change gateway.tracker.netQty args.symbol + gateway.orders.totalOn _ _ = _ at account
    change |gateway.tracker.netQty args.symbol + gateway.orders.openExposure arith _| ≤ _
    rw [scanned, account]
    exact accounted.abs_commitments_le (show (0 : Int) ≤ 2 ^ 31 by norm_num)
      (fun order member => (accounted.sound order member).qtyFits.le) _
  exact fun crosses => (accepted.rules_passed positive typed small).2 ⟨guarded, crosses⟩

/-- An approved order that is not netted keeps its symbol covered. -/
theorem Accepts.covered (accepted : gateway.Accepts arith args)
    (accounted : gateway.projections.Accounted) (positive : 0 < args.qty)
    (typed : gateway.limits.maxOrderQty < 2 ^ 31)
    (guarded : gateway.limits.allowPositionCross = false) (unnetted : Unnetted arith gateway args)
    (covered : gateway.projections.Covered (fieldKey args.symbol)) :
    ∃ side, gateway.projections.reach side (fieldKey args.symbol) +
      (if args.side.sign = side.sign then args.qty else 0) ≤ 0 := by
  obtain ⟨side, bound⟩ := covered
  by_cases same : args.side.sign = side.sign
  · have held := (accounted.sign_mul_netOf_le side (fieldKey args.symbol)).trans bound
    have net : gateway.tracker.netQty args.symbol =
        gateway.projections.tracker.netOf (fieldKey args.symbol) :=
      PositionTracker.netQty_eq_netOf _ _
    rcases unnetted with withPosition | ⟨unopposed, flat | ⟨nonzero, fits⟩⟩
    · rw [same, net] at withPosition
      omega
    · -- Nothing is held and nothing open on the other side, which is covered from here on.
      have nothing : gateway.projections.orders.totalOn (fieldKey args.symbol)
          (Order.pendingOn args.side.opposite) = 0 := unopposed.opposing_eq_zero
      have otherSide : args.side.sign ≠ args.side.opposite.sign := by
        rw [Side.sign_opposite]
        obtain sign | sign := args.side.sign_eq <;> omega
      refine ⟨args.side.opposite, ?_⟩
      rw [if_neg otherSide, Book.reach, nothing, ← net, flat]
      simp
    · -- True exposure is on the other side of zero, and the guard keeps it there.
      have scanned := OrderManager.openExposure_eq_of_fits arith accounted.sound args.symbol fits
      have free := accepted.not_crosses accounted positive typed guarded scanned
      have nothing : gateway.projections.orders.totalOn (fieldKey args.symbol)
          (Order.pendingOn args.side.opposite) = 0 := unopposed.opposing_eq_zero
      have seen := Book.sign_mul_trueExposure scanned args.side
      rw [nothing, sub_zero] at seen
      change gateway.projections.trueExposure arith args.symbol ≠ 0 at nonzero
      refine ⟨side, ?_⟩
      rw [if_pos same, ← Book.reach_congr same, ← seen]
      rw [← Book.reach_congr same, ← seen] at bound
      unfold Crosses at free
      obtain sign | sign := args.side.sign_eq <;> rw [sign] at bound free ⊢ <;> omega
  · refine ⟨side, ?_⟩
    rw [if_neg same, add_zero]
    exact bound

/-- The orders on a symbol are not netted; orders on other symbols are free. -/
def UnnettedOn (arith : Arithmetic) (sym : StringView) (gateway : FIXGateway)
    (args : SendArgs) : Prop :=
  fieldKey args.symbol = fieldKey sym → Unnetted arith gateway args

variable {sym : StringView}

/-- One call keeps the symbol covered and does not flip its position. -/
theorem ConformingStep.covered (typed : limits.maxOrderQty < 2 ^ 31)
    (guarded : limits.allowPositionCross = false)
    (run : ConformingRun arith (UnnettedOn arith sym) limits gateway)
    (step : ConformingStep arith (UnnettedOn arith sym) gateway after)
    (covered : gateway.projections.Covered (fieldKey sym)) :
    after.projections.Covered (fieldKey sym) ∧
      ¬Crosses (gateway.projections.tracker.netOf (fieldKey sym))
        (after.projections.tracker.netOf (fieldKey sym)) := by
  have sameLimits := run.inSession.limits_eq
  have accounted := run.accounted typed
  rcases step.takes run (sameLimits ▸ typed) with unchanged | ⟨event, taken, applied, approved⟩
  · rw [unchanged]
    exact ⟨covered, by unfold Crosses; omega⟩
  · rw [applied]
    by_cases type : event.type = .newOrder
    · obtain ⟨args, rfl, accepted, unnetted, positive⟩ := approved type
      have sameNet : (gateway.projections.apply arith (gateway.newOrderEvent args)).tracker =
          gateway.projections.tracker := by
        rw [Book.apply_of_newOrder arith _ type]
      refine ⟨?_, by rw [sameNet]; unfold Crosses; omega⟩
      cases taken with
      | fill isFill => cases isFill
      | close other => cases other <;> contradiction
      | newOrder _ isNew room =>
          have onSymbol := symbol_newOrderEvent gateway args
          unfold Book.Covered
          simp only [Book.reach_newOrder type isNew room, onSymbol]
          by_cases named : fieldKey args.symbol = fieldKey sym
          · simp only [named, true_and]
            rw [← named] at covered ⊢
            exact accepted.covered accounted positive (sameLimits ▸ typed)
              (sameLimits ▸ guarded) (unnetted named) covered
          · simpa [named, Book.Covered] using covered
    · exact accounted.covered_of_not_newOrder taken type covered

/-- The symbol stays covered along the whole run. -/
theorem ConformingRun.covered (typed : limits.maxOrderQty < 2 ^ 31)
    (guarded : limits.allowPositionCross = false)
    (run : ConformingRun arith (UnnettedOn arith sym) limits gateway) :
    gateway.projections.Covered (fieldKey sym) := by
  induction run with
  | refl => exact Book.covered_initial _
  | tail earlier call ih => exact (call.covered typed guarded earlier ih).1

/-- With the cross guard on, no fill flips the position of a symbol whose orders were approved
with nothing open on the other side to net against, or with the position. -/
theorem no_fill_crosses (typed : limits.maxOrderQty < 2 ^ 31)
    (guarded : limits.allowPositionCross = false)
    (run : ConformingRun arith (UnnettedOn arith sym) limits gateway)
    (step : ConformingStep arith (UnnettedOn arith sym) gateway after) :
    ¬Crosses (gateway.tracker.netQty sym) (after.tracker.netQty sym) := by
  rw [PositionTracker.netQty_eq_netOf, PositionTracker.netQty_eq_netOf]
  exact (step.covered typed guarded run (run.covered typed guarded)).2

/-! ## A netted buy -/

/-- One share bought and filled. -/
def longOne : FIXGateway :=
  (connectedGateway.sent .buy).delivered (tradedReport (ascii "ORD0") .buy 1)

theorem conformingRun_longOne {allowed : FIXGateway → SendArgs → Prop}
    (first : allowed connectedGateway (oneShare .buy)) :
    ConformingRun .wrapping allowed {} longOne := by
  have connected : ConformingRun .wrapping allowed {} connectedGateway := .single .onLogon
  have bought := connected.tail
    (.send (oneShare .buy) 0 true (by decide) (by decide) (by decide) fun _ => first)
  have conforming : ConformingReport .wrapping (connectedGateway.sent .buy).orders
      (tradedReport (ascii "ORD0") .buy 1) :=
    conformingReport_tradedReport (Option.eq_some_of_isSome (by decide +kernel)) (by decide +kernel)
  exact bought.tail (.report _ 0 conforming rfl)

/-- The share is sold again. -/
def closing : FIXGateway := longOne.sent .sell

/-- A sell against the position takes it to zero and no further. -/
theorem no_fill_crosses_closing :
    ¬Crosses (closing.tracker.netQty sampleArgs.symbol)
      ((closing.delivered (tradedReport (ascii "ORD1") .sell 1)).tracker.netQty
        sampleArgs.symbol) := by
  have flat : UnnettedOn .wrapping sampleArgs.symbol connectedGateway (oneShare .buy) :=
    fun _ => .inr ⟨fun _ member => (nomatch member), .inl rfl⟩
  have unopposed : longOne.Unopposed (oneShare .sell) := by
    unfold Unopposed
    decide +kernel
  have covered : UnnettedOn .wrapping sampleArgs.symbol longOne (oneShare .sell) :=
    fun _ => .inr ⟨unopposed, .inr ⟨by decide +kernel, by decide +kernel⟩⟩
  have run : ConformingRun .wrapping (UnnettedOn .wrapping sampleArgs.symbol) {} closing :=
    (conformingRun_longOne flat).tail
      (.send (oneShare .sell) 0 true (by decide) (by decide) (by decide) fun _ => covered)
  have conforming : ConformingReport .wrapping closing.orders
      (tradedReport (ascii "ORD1") .sell 1) :=
    conformingReport_tradedReport (Option.eq_some_of_isSome (by decide +kernel)) (by decide +kernel)
  exact no_fill_crosses (by decide) rfl run (.report _ 0 conforming rfl)

/-- Two shares of the sample symbol, to sell. -/
def sellTwo : SendArgs := { sampleArgs with side := .sell, qty := 2 }

/-- One share held, one more on order, and two on order to be sold. -/
def netted : FIXGateway := ((longOne.sent .buy).sendOrder .wrapping sellTwo 0 true).gateway

/-- The guard nets an open buy against a sell, and the sell fills first. -/
theorem netted_sell_crosses :
    ¬∀ (limits : RiskLimits) (gateway after : FIXGateway) (sym : StringView),
      limits.maxOrderQty < 2 ^ 31 → limits.allowPositionCross = false →
      ConformingRun .wrapping (fun _ _ => True) limits gateway →
      ConformingStep .wrapping (fun _ _ => True) gateway after →
      ¬Crosses (gateway.tracker.netQty sym) (after.tracker.netQty sym) := by
  intro always
  have long : ConformingRun .wrapping (fun _ _ => True) {} longOne := conformingRun_longOne trivial
  have bought := long.tail
    (.send (oneShare .buy) 0 true (by decide) (by decide) (by decide +kernel) fun _ => trivial)
  have run : ConformingRun .wrapping (fun _ _ => True) {} netted := bought.tail
    (.send sellTwo 0 true (by decide) (by decide) (by decide +kernel) fun _ => trivial)
  have conforming : ConformingReport .wrapping netted.orders
      (tradedReport (ascii "ORD2") .sell 2) :=
    conformingReport_tradedReport (Option.eq_some_of_isSome (by decide +kernel)) (by decide +kernel)
  refine always {} netted _ sampleArgs.symbol (by decide) rfl run (.report _ 0 conforming rfl) ?_
  exact .inl ⟨by decide +kernel, by decide +kernel⟩

end Gateway.FIXGateway

end Hft
