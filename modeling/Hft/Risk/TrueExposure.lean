import Hft.Risk.PositionLimit

/-!
# True exposure while nothing is cancelled

The risk check approves an order when `net_qty + open_exposure`, the order included, is
within `max_net_position`. Fills move quantity from the second figure to the first, so the
sum stays where the last approval left it, and once everything is filled the net quantity
alone is within the limit. A cancel would take a pending quantity out of the sum, which is
why the runs here have none.
-/

namespace Hft.Gateway.FIXGateway

open Logical

/-- One call of a run in which the exchange only fills. -/
inductive FillingStep (arith : Arithmetic) (gateway : FIXGateway) : FIXGateway → Prop where
  | send (args : SendArgs) (now : Nat) (sessionFound : Bool) (positive : 0 < args.qty)
      (price : 0 ≤ args.priceFp) (slot : gateway.orders.orderCount < maxOrders) :
      FillingStep arith gateway (gateway.sendOrder arith args now sessionFound).gateway
  | fill {after : FIXGateway} (report : ExecutionReport) (now : Nat)
      (execType : report.execType = some '1' ∨ report.execType = some '2')
      (conforming : ConformingReport arith gateway.orders report)
      (returned : gateway.fromApp arith (.executionReport report) now = .returned after) :
      FillingStep arith gateway after
  | onLogon : FillingStep arith gateway gateway.onLogon
  | onLogout : FillingStep arith gateway gateway.onLogout

/-- The states of such a run that began with an empty log. -/
def FillingRun (arith : Arithmetic) (limits : RiskLimits) (gateway : FIXGateway) : Prop :=
  Relation.ReflTransGen (FillingStep arith) (start arith limits EventLog.empty) gateway

variable {arith : Arithmetic} {limits : RiskLimits} {gateway after : FIXGateway}

/-- The exchange of a filling run conforms. -/
theorem FillingStep.conformingStep (step : FillingStep arith gateway after) :
    ConformingStep arith (fun _ _ => True) gateway after := by
  cases step with
  | send args now sessionFound positive price slot =>
      exact .send args now sessionFound positive price slot fun _ => trivial
  | fill report now _ conforming returned => exact .report report now conforming returned
  | onLogon => exact .onLogon
  | onLogout => exact .onLogout

theorem FillingRun.conformingRun (run : FillingRun arith limits gateway) :
    ConformingRun arith (fun _ _ => True) limits gateway :=
  Relation.ReflTransGen.mono (fun _ _ step => step.conformingStep) _ _ run

/-- Each call of a filling run leaves the projections alone, books a fill or takes an
accepted order. -/
theorem FillingStep.takes (run : FillingRun arith limits gateway)
    (typed : gateway.limits.maxOrderQty < 2 ^ 31) (step : FillingStep arith gateway after) :
    after.projections = gateway.projections ∨
    ∃ event, gateway.projections.Takes arith event ∧
      after.projections = gateway.projections.apply arith event ∧
      (event.isFill = true ∨ ∃ args, event = gateway.newOrderEvent args ∧
        gateway.Accepts arith args ∧ 0 < args.qty) := by
  cases step with
  | send args now sessionFound positive price slot =>
      rcases sendOrder_takes run.conformingRun.inSession typed positive slot now sessionFound with
        unchanged | ⟨accepted, taken, applied⟩
      · exact .inl unchanged
      · exact .inr ⟨_, taken, applied, .inr ⟨args, rfl, accepted, positive⟩⟩
  | fill report now execType conforming returned =>
      rcases report_takes conforming returned with unchanged | ⟨event, translated, taken, applied⟩
      · exact .inl unchanged
      · exact .inr ⟨event, taken, applied, .inl
          (MessageTranslator.isFill_of_execType execType translated)⟩
  | onLogon => exact .inl rfl
  | onLogout => exact .inl rfl

/-- One call keeps true exposure within a limit that 512 orders could pass. -/
theorem FillingStep.abs_trueExposure_le (run : FillingRun arith limits gateway)
    (sized : limits.maxOrderQty ≤ 10000) (nonneg : 0 ≤ limits.maxNetPosition)
    (small : limits.maxNetPosition ≤ 5120000) (step : FillingStep arith gateway after)
    (sym : StringView)
    (within : |gateway.projections.trueExposure arith sym| ≤ limits.maxNetPosition) :
    |after.projections.trueExposure arith sym| ≤ limits.maxNetPosition := by
  have conforming := run.conformingRun
  have sameLimits := conforming.inSession.limits_eq
  have balanced := (conforming.reachable sized).balanced
  rcases step.takes run (by rw [sameLimits]; omega) with
    unchanged | ⟨event, taken, applied, isFill | ⟨args, rfl, accepted, positive⟩⟩
  · rw [unchanged]
    exact within
  · have admitted : gateway.projections.Admits arith event :=
      ⟨taken, fun isNew => by simp [OrderEvent.isFill, isNew] at isFill⟩
    rw [applied, balanced.trueExposure_fill admitted isFill]
    exact within
  · have bounded := (RiskChecker.check_eq_pass_iff.mp accepted.2).1.trans (sameLimits ▸ sized)
    have admitted : gateway.projections.Admits arith (gateway.newOrderEvent args) :=
      ⟨taken, fun _ => bounded⟩
    have onSymbol := symbol_newOrderEvent gateway args
    rw [applied, balanced.trueExposure_newOrder admitted rfl, onSymbol]
    split
    · rename_i same
      -- The check was run on this symbol's exposure, under whichever view it was named.
      have projected := accepted.abs_projected_le balanced positive (sameLimits ▸ sized)
        (sameLimits ▸ nonneg) (sameLimits ▸ small)
      rw [balanced.trueExposure_eq, same, ← balanced.trueExposure_eq arith sym,
        sameLimits] at projected
      change |_ + RiskChecker.signedQty arith args.side args.qty| ≤ _
      rw [Book.signedQty_eq arith args.side positive (by omega)]
      exact projected
    · rw [add_zero]
      exact within

/-- Approved orders and fills, in any order and split, keep filled plus pending quantity of
every symbol within the limit. When all orders on a symbol are filled, that is its net
quantity. -/
theorem true_exposure_within_limit (sized : limits.maxOrderQty ≤ 10000)
    (nonneg : 0 ≤ limits.maxNetPosition) (run : FillingRun arith limits gateway)
    (sym : StringView) :
    |gateway.tracker.netQty sym + gateway.orders.openExposure arith sym| ≤
      limits.maxNetPosition ∧
    ((∀ order ∈ gateway.orders.slots, order.symbol.string = fieldKey sym →
        order.state = .filled) →
      |gateway.tracker.netQty sym| ≤ limits.maxNetPosition) := by
  have balanced := (run.conformingRun.reachable sized).balanced
  have within : |gateway.projections.trueExposure arith sym| ≤ limits.maxNetPosition := by
    by_cases small : limits.maxNetPosition ≤ 5120000
    · induction run with
      | refl => exact abs_zero.trans_le nonneg
      | @tail before last run step ih =>
          have earlier := (FillingRun.conformingRun run).reachable sized
          exact step.abs_trueExposure_le run sized nonneg small sym (ih earlier.balanced)
    · -- A limit this wide is out of reach of 512 orders of at most 10,000.
      exact (balanced.abs_trueExposure_le arith sym).trans (by omega)
  refine ⟨within, fun done => ?_⟩
  have nothingOpen : gateway.orders.openExposure arith sym = 0 := by
    refine (OrderManager.openExposure_eq_totalOn arith balanced.coherent sym).trans ?_
    apply List.sum_eq_zero
    intro value member
    obtain ⟨order, inTable, rfl⟩ := List.mem_map.mp member
    split
    · rename_i onSymbol
      simp [Order.pendingSigned, Order.isOpen, done order inTable onSymbol]
    · rfl
  change |gateway.tracker.netQty sym + gateway.orders.openExposure arith sym| ≤ _ at within
  rwa [nothingOpen, add_zero] at within

/-- A session whose one order was filled. -/
def filledSession : FIXGateway :=
  (connectedGateway.sent .buy).delivered (filledReport (ascii "ORD0"))

theorem fillingRun_filledSession : FillingRun .wrapping {} filledSession := by
  have connected : FillingRun .wrapping {} connectedGateway := .single .onLogon
  have bought := connected.tail (.send (oneShare .buy) 0 true (by decide) (by decide) (by decide))
  have conforming : ConformingReport .wrapping (connectedGateway.sent .buy).orders
      (filledReport (ascii "ORD0")) :=
    conformingReport_filledReport (Option.eq_some_of_isSome (by decide +kernel)) (by decide +kernel)
  exact bought.tail (.fill _ 0 (.inr rfl) conforming rfl)

/-- One share bought and filled is a net quantity within the default limit. -/
theorem true_exposure_within_limit_filled :
    filledSession.tracker.netQty sampleArgs.symbol = 1 ∧
      |filledSession.tracker.netQty sampleArgs.symbol| ≤ ({} : RiskLimits).maxNetPosition :=
  ⟨by decide +kernel,
    (true_exposure_within_limit (by decide) (by decide) fillingRun_filledSession
      sampleArgs.symbol).2 (by decide +kernel)⟩

end Hft.Gateway.FIXGateway
