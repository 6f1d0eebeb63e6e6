import Hft.Gateway.Interleaving
import Hft.PositionTracker.MachineWidth

/-!
# The profit of the whole book

`total_pnl` is the realized and the unrealized profit of a position. Over a run of fills and
marks, in machine integers that hold the volumes, the profits of all positions add up to the
cash that changed hands and the value of what is held at the last prices, up to the remainders
of the averaging divisions. Fills of a symbol that found no slot are in neither sum.
-/

namespace Hft

open Logical

namespace Position

/-- `total_pnl_d`, before the conversion to a double. -/
def totalPnl (position : Position) : Int := position.realizedPnl + position.unrealizedPnl

/-- What a share is taken to be worth: the last mark, the entry price before the first one. -/
def sharePrice (position : Position) : Int :=
  if 0 < position.lastPrice then position.lastPrice else position.avgEntryPrice

/-- What the open position is worth, negative for a short one. -/
def marketValue (position : Position) : Int := position.sharePrice * position.netQty

/-- A position valued at its own last price shows the cash, the market value and the
discrepancy. -/
theorem totalPnl_eq {position : Position} (valued : position.unrealizedPnl = position.openProfit)
    (cash : Int) :
    position.totalPnl = cash + position.marketValue + position.discrepancy cash := by
  rw [totalPnl, valued, marketValue, sharePrice, discrepancy, openProfit]
  by_cases marked : 0 < position.lastPrice
  · by_cases flat : position.netQty = 0
    · simp [marked, flat]
    · simp only [marked, flat, ne_eq, not_false_eq_true, and_self, if_true]
      ring
  · simp only [marked, false_and, if_false]
    ring

/-- The discrepancy is settled by the fields that the log determines. -/
theorem discrepancy_of_logged_eq {position position' : Position}
    (same : position.logged = position'.logged) (cash : Int) :
    position.discrepancy cash = position'.discrepancy cash := by
  simp only [logged, Position.mk.injEq] at same
  obtain ⟨_, net, entry, realized, _⟩ := same
  rw [discrepancy, discrepancy, net, entry, realized]

end Position

namespace PositionTracker

/-- What every position opened flat has, and every fill and every mark keeps, all slots have
after any run. -/
theorem forall_slots_run {arith : Arithmetic} {calls : List Call} {Keeps : Position → Prop}
    (opened : ∀ symbol, Keeps (Position.zeroed symbol))
    (filled : ∀ event, .applyEvent event ∈ calls → ∀ position, Keeps position →
      Keeps (position.applyFill arith event))
    (marked : ∀ sym mktPriceFp, .markToMarket sym mktPriceFp ∈ calls → ∀ position,
      Keeps position → Keeps (position.mark arith mktPriceFp)) :
    ∀ position ∈ (run arith calls).slots, Keeps position := by
  induction calls using List.reverseRecOn with
  | nil => exact fun _ member => absurd member List.not_mem_nil
  | append_singleton earlier call ih =>
      have before := ih (fun event member => filled event (List.mem_append_left _ member))
        (fun sym mktPriceFp member => marked sym mktPriceFp (List.mem_append_left _ member))
      have last := List.mem_append_right earlier (List.mem_singleton_self call)
      intro position member
      rw [run_concat] at member
      cases call with
      | applyEvent event =>
          obtain old | ⟨_, found, inTable | rfl, rfl⟩ := mem_applyEvent member
          · exact before position old
          · exact filled event last found (before found inTable)
          · exact filled event last _ (opened _)
      | markToMarket sym mktPriceFp =>
          obtain old | ⟨found, inTable, rfl⟩ := mem_markToMarket member
          · exact before position old
          · exact marked sym mktPriceFp last found (before found inTable)

/-- The events among the calls. -/
def eventsOf (calls : List Call) : List OrderEvent :=
  calls.filterMap fun
    | .applyEvent event => some event
    | .markToMarket _ _ => none

/-- Marks leave no trace in what the log determines. -/
theorem project_agree_run (arith : Arithmetic) (calls : List Call) :
    (project arith (eventsOf calls)).Agree Position.logged (run arith calls) := by
  induction calls using List.reverseRecOn with
  | nil => rfl
  | append_singleton earlier call ih =>
      rw [run_concat, eventsOf, List.filterMap_append]
      cases call with
      | applyEvent event =>
          change (project arith (eventsOf earlier ++ [event])).Agree Position.logged _
          rw [project, List.foldl_append]
          exact agree_applyEvent ih arith event.sequence event.timestampNs event
      | markToMarket sym mktPriceFp =>
          change (project arith (eventsOf earlier ++ [])).Agree Position.logged _
          rw [List.append_nil]
          exact agree_markToMarket ih arith sym mktPriceFp

/-! ## The account of one symbol -/

/-- The cash received for fills. -/
def cash (fills : List OrderEvent) : Int := (fills.map OrderEvent.cashFlow).sum

/-- What the averaging divisions dropped over the fills of a symbol. -/
def dropped (fills : List OrderEvent) (position : Position) : Int :=
  let flat := Position.zeroed (strncpy position.symbolView.data 8)
  flat.longRemainders fills - flat.shortRemainders fills

/-- The most they can have dropped. -/
def droppedBound (fills : List OrderEvent) (position : Position) : Int :=
  (Position.zeroed (strncpy position.symbolView.data 8)).roundingBound fills

section Exact

variable {calls : List Call} {position : Position}

/-- A slot stands in the discrepancy of its own fills. -/
theorem discrepancy_run (positive : ∀ event ∈ eventsOf calls, event.isFill = true →
      0 < event.fillQty) (member : position ∈ (run .exact calls).slots) :
    let fills := fillsOf position.symbolView (eventsOf calls)
    position.discrepancy (cash fills) = dropped fills position := by
  intro fills
  have inView := List.mem_map_of_mem (f := Position.logged) member
  rw [← show _ = _ from project_agree_run .exact calls] at inView
  obtain ⟨twin, inTable, same⟩ := List.mem_map.mp inView
  have named : twin.key = fieldKey position.symbolView := key_eq_of_logged_eq twin position same
  have folded := eq_foldFills_of_get (get_eq_some_iff.mpr ⟨inTable, named⟩)
  have sum := @Position.discrepancy_applyFills fills
    (fun event inFills => fillQty_pos_of_mem_fillsOf positive inFills)
    (Position.zeroed (strncpy position.symbolView.data 8)) 0
  rw [zero_add] at sum
  rw [← Position.discrepancy_of_logged_eq same, folded]
  refine sum.trans ?_
  simp [Position.discrepancy, Position.zeroed, dropped, fills]

/-- Its profit is the cash of its fills and the value of what it holds. -/
theorem totalPnl_run (positive : ∀ event ∈ eventsOf calls, event.isFill = true →
      0 < event.fillQty)
    (quoted : ∀ sym mktPriceFp, .markToMarket sym mktPriceFp ∈ calls → 0 < mktPriceFp)
    (member : position ∈ (run .exact calls).slots) :
    let fills := fillsOf position.symbolView (eventsOf calls)
    position.totalPnl = cash fills + position.marketValue + dropped fills position := by
  intro fills
  have valued : position.unrealizedPnl = position.openProfit :=
    @forall_slots_run .exact calls (fun held => held.unrealizedPnl = held.openProfit)
      (fun symbol => by simp [Position.openProfit, Position.zeroed])
      (fun event _ held _ => held.unrealizedPnl_applyFill event)
      (fun sym mktPriceFp inCalls held before =>
        Position.unrealizedPnl_mark (quoted sym mktPriceFp inCalls) before) position member
  rw [Position.totalPnl_eq valued (cash fills), discrepancy_run positive member]

end Exact

/-! ## The account of the book -/

/-- The sum of a figure over all slots. -/
def total (figure : Position → Int) (tracker : PositionTracker) : Int :=
  (tracker.slots.map figure).sum

/-- The fills of all symbols that have a slot. -/
def tracked (tracker : PositionTracker) (events : List OrderEvent) : List OrderEvent :=
  events.filter fun event => event.isFill ∧ event.symbol.string ∈ tracker.keys

/-- Every fill of a symbol with a slot is in the account of exactly one position. -/
theorem total_cash (tracker : PositionTracker) (events : List OrderEvent) :
    tracker.total (fun position => cash (fillsOf position.symbolView events)) =
      cash (tracker.tracked events) := by
  have fibres := tracker.sum_fibres (fun event : OrderEvent => event.symbol.string)
    OrderEvent.cashFlow (events.filter OrderEvent.isFill)
  rw [List.filter_filter] at fibres
  simp only [total, cash, tracked, ← filter_isFill_filter]
  refine fibres.trans (congrArg (fun fills => (List.map OrderEvent.cashFlow fills).sum) ?_)
  refine List.filter_congr fun event _ => ?_
  by_cases held : event.symbol.string ∈ tracker.keys <;> simp [held]

/-- In machine integers that hold the volumes, the profits of the positions add up to the cash
of their fills and the value of what they hold, and the remainders of the averaging divisions
are all that is missing. -/
theorem totalPnl_reconciles (arith : Arithmetic) {cap : Int} {calls : List Call}
    (priced : ∀ call ∈ calls, call.Priced cap)
    (quoted : ∀ sym mktPriceFp, .markToMarket sym mktPriceFp ∈ calls → 0 < mktPriceFp)
    (fits : ∀ symbol, FitsMachine cap (volume symbol calls)) :
    let tracker := run arith calls
    let events := eventsOf calls
    let lost position := dropped (fillsOf position.symbolView events) position
    (∀ position ∈ tracker.slots,
      position.totalPnl =
        cash (fillsOf position.symbolView events) + position.marketValue + lost position ∧
      |lost position| ≤ droppedBound (fillsOf position.symbolView events) position) ∧
    tracker.total Position.totalPnl =
      cash (tracker.tracked events) + tracker.total Position.marketValue + tracker.total lost ∧
    |tracker.total lost| ≤ tracker.total fun position =>
      droppedBound (fillsOf position.symbolView events) position := by
  intro tracker events lost
  have exactly : tracker = run .exact calls :=
    (run_within arith priced fits calls List.prefix_rfl).1
  have booked : ∀ event ∈ events, event.isFill = true →
      0 < event.fillQty ∧ 0 ≤ event.fillPrice := by
    intro event member isFill
    obtain ⟨call, inCalls, taken⟩ := List.mem_filterMap.mp member
    cases call with
    | applyEvent other =>
        cases Option.some.inj taken
        exact ⟨(priced _ inCalls isFill).1, (priced _ inCalls isFill).2.1⟩
    | markToMarket sym mktPriceFp => cases taken
  have each : ∀ position ∈ tracker.slots, position.totalPnl =
      cash (fillsOf position.symbolView events) + position.marketValue + lost position := by
    intro position member
    rw [exactly] at member
    exact totalPnl_run (fun event inEvents isFill => (booked event inEvents isFill).1) quoted member
  have bounds : ∀ position, |lost position| ≤
      droppedBound (fillsOf position.symbolView events) position := by
    intro position
    refine Position.abs_remainders_le (fun event member => ?_) (le_refl (0 : Int))
    obtain ⟨inEvents, isFill, _⟩ := mem_fillsOf_iff.mp member
    exact booked event inEvents isFill
  refine ⟨fun position member => ⟨each position member, bounds position⟩, ?_, ?_⟩
  · rw [← total_cash]
    unfold total
    rw [← List.sum_map_add, ← List.sum_map_add]
    exact congrArg List.sum (List.map_congr_left each)
  · unfold total
    induction tracker.slots with
    | nil => simp
    | cons position rest ih =>
        rw [List.map_cons, List.map_cons, List.sum_cons, List.sum_cons]
        exact (abs_add_le _ _).trans (add_le_add (bounds position) ih)

/-- 45 and 7 are gained, of which the divisions of the two averages account for 5 and -3. -/
theorem totalPnl_reconciles_averaged :
    ((run .wrapping averagedCalls).slots.map fun position => (position.totalPnl,
      dropped (fillsOf position.symbolView (eventsOf averagedCalls)) position)) =
        [(45, 5), (7, -3)] ∧
    (run .wrapping averagedCalls).total Position.totalPnl =
      cash ((run .wrapping averagedCalls).tracked (eventsOf averagedCalls)) +
        (run .wrapping averagedCalls).total Position.marketValue +
        (run .wrapping averagedCalls).total fun position =>
          dropped (fillsOf position.symbolView (eventsOf averagedCalls)) position := by
  have quoted : ∀ sym mktPriceFp, .markToMarket sym mktPriceFp ∈ averagedCalls →
      0 < mktPriceFp := by
    intro sym mktPriceFp member
    simp only [averagedCalls, List.mem_cons, Call.markToMarket.injEq, reduceCtorEq, false_or,
      List.not_mem_nil, or_false] at member
    omega
  exact ⟨by decide +kernel,
    (totalPnl_reconciles .wrapping priced_averagedCalls quoted fits_averagedCalls).2.1⟩

end PositionTracker

end Hft
