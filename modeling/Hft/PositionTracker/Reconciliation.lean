import Hft.PositionTracker.Direction
import Mathlib.Algebra.Order.Group.Unbundled.Int
import Mathlib.Tactic.Linarith

/-!
# Realized profit against cash

With exact integers, what separates `realized_pnl` from the cash that changed hands is
the cost of the open position and nothing else, up to the remainders that the averaging
divisions throw away. `discrepancy_applyFill` says what one fill does to the account, and
the rest of the module adds it up over a sequence.
-/

namespace Hft

open Logical

namespace OrderEvent

/-- Cash received for a fill: positive for a sell, negative for a buy. -/
def cashFlow (event : OrderEvent) : Int :=
  if event.side = .buy then -(event.fillPrice * event.fillQty) else event.fillPrice * event.fillQty

end OrderEvent

namespace Position

/-- A buy that opens or adds to a long position. -/
def AddsToLong (position : Position) (event : OrderEvent) : Prop :=
  event.side = .buy ∧ 0 ≤ position.netQty

/-- A sell that opens or adds to a short position. -/
def AddsToShort (position : Position) (event : OrderEvent) : Prop :=
  event.side ≠ .buy ∧ position.netQty ≤ 0

instance (position : Position) (event : OrderEvent) : Decidable (position.AddsToLong event) :=
  inferInstanceAs (Decidable (_ ∧ _))

instance (position : Position) (event : OrderEvent) : Decidable (position.AddsToShort event) :=
  inferInstanceAs (Decidable (_ ∧ _))

/-- `new_cost % new_qty` of the averaging division. -/
def remainder (position : Position) (event : OrderEvent) : Int :=
  (position.avgEntryPrice * |position.netQty| + event.fillPrice * event.fillQty).tmod
    (|position.netQty| + event.fillQty)

/-- Realized profit less the cash received and the cost of the open position. -/
def discrepancy (position : Position) (cash : Int) : Int :=
  position.realizedPnl - cash - position.avgEntryPrice * position.netQty

/-- What one fill adds to the discrepancy. -/
def rounding (position : Position) (event : OrderEvent) : Int :=
  (if position.AddsToLong event then position.remainder event else 0) -
    if position.AddsToShort event then position.remainder event else 0

/-- What a fill makes of the cost: it books its own, less what it closes and what the averaging
division drops. -/
theorem entryPrice_mul (average price : Int) {held qty : Int} (positive : 0 < qty) :
    entryPrice held average qty price * (held + qty) =
      average * held + price * qty + (average - price) * closedQty held qty -
        if 0 ≤ held then (average * held + price * qty).tmod (held + qty) else 0 := by
  unfold entryPrice closedQty
  by_cases along : 0 ≤ held
  · have newQty : 0 < held + qty := by omega
    have division := Int.mul_tdiv_add_tmod (average * held + price * qty) (held + qty)
    simp only [along, newQty, if_true, averaged]
    linarith
  · simp only [along, if_false]
    by_cases crosses : 0 < held + qty
    · have past : ¬qty ≤ -held := by omega
      simp only [crosses, past, if_true, if_false]
      ring
    · have covers : qty ≤ -held := by omega
      by_cases flat : held + qty = 0
      · have all : held = -qty := by omega
        simp only [all, neg_add_cancel, lt_irrefl, neg_neg, le_refl, if_true, if_false]
        ring
      · simp only [crosses, covers, flat, if_true, if_false]
        ring

/-- Counted in the direction of the fill, both kinds of averaging fill are one. -/
theorem rounding_eq (position : Position) (event : OrderEvent) :
    position.rounding event = event.side.sign *
      if 0 ≤ event.side.sign * position.netQty then
        (position.avgEntryPrice * (event.side.sign * position.netQty) +
          event.fillPrice * event.fillQty).tmod (event.side.sign * position.netQty + event.fillQty)
      else 0 := by
  unfold rounding AddsToLong AddsToShort remainder Side.sign
  by_cases buys : event.side = .buy
  · by_cases long : 0 ≤ position.netQty
    · simp [buys, long, abs_of_nonneg long]
    · simp [buys, long]
  · by_cases short : position.netQty ≤ 0
    · simp [buys, short, abs_of_nonpos short]
    · simp [buys, short]

/-- Only an averaging fill moves the discrepancy, and by its remainder. -/
theorem discrepancy_applyFill {event : OrderEvent} (positive : 0 < event.fillQty)
    (position : Position) (cash : Int) :
    (position.applyFill .exact event).discrepancy (cash + event.cashFlow) =
      position.discrepancy cash + position.rounding event := by
  have cost := @entryPrice_mul position.avgEntryPrice event.fillPrice
    (event.side.sign * position.netQty) event.fillQty positive
  have flow : event.cashFlow = -(event.side.sign * (event.fillPrice * event.fillQty)) := by
    unfold OrderEvent.cashFlow Side.sign
    split <;> simp
  rw [discrepancy, discrepancy, rounding_eq, realizedPnl_applyFill, avgEntryPrice_applyFill,
    netQty_applyFill, Arithmetic.exact_int64, flow]
  obtain sign | sign := event.side.sign_eq <;> rw [sign] at cost ⊢
  · linarith
  · linarith

/-! ## Sequences of fills -/

/-- A sequence of fills, booked one after the other with exact integers. -/
def applyFills (position : Position) (events : List OrderEvent) : Position :=
  events.foldl (fun booked event => booked.applyFill .exact event) position

/-- Each fill of a sequence with the position it finds. -/
def trail : Position → List OrderEvent → List (Position × OrderEvent)
  | _, [] => []
  | position, event :: rest => (position, event) :: trail (position.applyFill .exact event) rest

/-- The remainders of the buys that opened or added to a long position. -/
def longRemainders (position : Position) (events : List OrderEvent) : Int :=
  (((trail position events).filter fun entry => entry.1.AddsToLong entry.2).map fun entry =>
    entry.1.remainder entry.2).sum

/-- The remainders of the sells that opened or added to a short position. -/
def shortRemainders (position : Position) (events : List OrderEvent) : Int :=
  (((trail position events).filter fun entry => entry.1.AddsToShort entry.2).map fun entry =>
    entry.1.remainder entry.2).sum

/-- `|net_qty after the fill| - 1`, over the averaging fills. -/
def roundingBound (position : Position) (events : List OrderEvent) : Int :=
  (((trail position events).filter fun entry =>
    entry.1.AddsToLong entry.2 ∨ entry.1.AddsToShort entry.2).map fun entry =>
    |(entry.1.applyFill .exact entry.2).netQty| - 1).sum

theorem remainders_cons (position : Position) (event : OrderEvent) (rest : List OrderEvent) :
    position.longRemainders (event :: rest) - position.shortRemainders (event :: rest) =
      position.rounding event + ((position.applyFill .exact event).longRemainders rest -
        (position.applyFill .exact event).shortRemainders rest) := by
  unfold longRemainders shortRemainders rounding
  rw [trail, List.filter_cons, List.filter_cons]
  by_cases long : position.AddsToLong event <;> by_cases short : position.AddsToShort event <;>
    simp [long, short] <;> ring

theorem roundingBound_cons (position : Position) (event : OrderEvent) (rest : List OrderEvent) :
    position.roundingBound (event :: rest) =
      (if position.AddsToLong event ∨ position.AddsToShort event then
        |(position.applyFill .exact event).netQty| - 1 else 0) +
      (position.applyFill .exact event).roundingBound rest := by
  unfold roundingBound
  rw [trail, List.filter_cons]
  by_cases averages : position.AddsToLong event ∨ position.AddsToShort event <;> simp [averages]

/-- The discrepancy of a sequence is the account of its remainders. -/
theorem discrepancy_applyFills {events : List OrderEvent}
    (positive : ∀ event ∈ events, 0 < event.fillQty) (position : Position) (cash : Int) :
    (position.applyFills events).discrepancy (cash + (events.map OrderEvent.cashFlow).sum) =
      position.discrepancy cash +
        (position.longRemainders events - position.shortRemainders events) := by
  induction events generalizing position cash with
  | nil => simp [applyFills, longRemainders, shortRemainders, trail]
  | cons event rest ih =>
      have head := discrepancy_applyFill (positive event List.mem_cons_self) position cash
      have tail := ih (fun other member => positive other (List.mem_cons_of_mem _ member))
        (position.applyFill .exact event) (cash + event.cashFlow)
      rw [remainders_cons, List.map_cons, List.sum_cons, ← add_assoc cash]
      refine tail.trans ?_
      rw [head, add_assoc]

/-! ## The size of the remainders -/

/-- A remainder is smaller than the position it was averaged over. -/
theorem remainder_bounds {position : Position} {event : OrderEvent}
    (averages : position.AddsToLong event ∨ position.AddsToShort event)
    (positive : 0 < event.fillQty) (price : 0 ≤ event.fillPrice)
    (cost : 0 ≤ position.avgEntryPrice) :
    0 ≤ position.remainder event ∧
      position.remainder event ≤ |(position.applyFill .exact event).netQty| - 1 := by
  have after : |(position.applyFill .exact event).netQty| = |position.netQty| + event.fillQty := by
    rw [netQty_applyFill, Arithmetic.exact_int64, Side.sign]
    obtain ⟨buys, long⟩ | ⟨sells, short⟩ := averages
    · rw [if_pos buys, abs_of_nonneg long, abs_of_nonneg (by omega)]
      ring
    · rw [if_neg sells, abs_of_nonpos short, abs_of_nonpos (by omega)]
      ring
  have newQty : 0 < |position.netQty| + event.fillQty := by positivity
  have newCost : 0 ≤ position.avgEntryPrice * |position.netQty| +
      event.fillPrice * event.fillQty := by positivity
  have below := Int.tmod_lt_of_pos (position.avgEntryPrice * |position.netQty| +
    event.fillPrice * event.fillQty) newQty
  refine ⟨Int.tmod_nonneg _ newCost, ?_⟩
  rw [after, remainder]
  omega

/-- Prices are not negative, so no average is. -/
theorem avgEntryPrice_applyFill_nonneg {position : Position} {event : OrderEvent}
    (positive : 0 < event.fillQty) (price : 0 ≤ event.fillPrice)
    (cost : 0 ≤ position.avgEntryPrice) :
    0 ≤ (position.applyFill .exact event).avgEntryPrice := by
  rw [avgEntryPrice_applyFill, entryPrice]
  split_ifs with along
  · exact le_averaged along positive cost price
  · exact le_refl 0
  · exact price
  · exact le_refl 0
  · exact cost

theorem abs_remainders_le {events : List OrderEvent}
    (booked : ∀ event ∈ events, 0 < event.fillQty ∧ 0 ≤ event.fillPrice) {position : Position}
    (cost : 0 ≤ position.avgEntryPrice) :
    |position.longRemainders events - position.shortRemainders events| ≤
      position.roundingBound events := by
  induction events generalizing position with
  | nil => simp [longRemainders, shortRemainders, roundingBound, trail]
  | cons event rest ih =>
      obtain ⟨positive, price⟩ := booked event List.mem_cons_self
      have tail := ih (fun other member => booked other (List.mem_cons_of_mem _ member))
        (avgEntryPrice_applyFill_nonneg positive price cost)
      have head : |position.rounding event| ≤
          if position.AddsToLong event ∨ position.AddsToShort event then
            |(position.applyFill .exact event).netQty| - 1 else 0 := by
        unfold rounding
        by_cases long : position.AddsToLong event
        · have notShort : ¬position.AddsToShort event := fun adds => adds.1 long.1
          have bounds := remainder_bounds (.inl long) positive price cost
          simp only [long, notShort, if_true, if_false, true_or, sub_zero]
          rw [abs_of_nonneg bounds.1]
          exact bounds.2
        · by_cases short : position.AddsToShort event
          · have bounds := remainder_bounds (.inr short) positive price cost
            simp only [long, short, if_true, if_false, or_true, zero_sub, abs_neg]
            rw [abs_of_nonneg bounds.1]
            exact bounds.2
          · simp [long, short]
      rw [remainders_cons, roundingBound_cons]
      exact (abs_add_le _ _).trans (add_le_add head tail)

theorem remainders_eq_zero {position : Position} {events : List OrderEvent}
    (exactly : ∀ entry ∈ position.trail events,
      entry.1.AddsToLong entry.2 ∨ entry.1.AddsToShort entry.2 → entry.1.remainder entry.2 = 0) :
    position.longRemainders events - position.shortRemainders events = 0 := by
  have long : position.longRemainders events = 0 := by
    apply List.sum_eq_zero
    intro value member
    obtain ⟨entry, filtered, rfl⟩ := List.mem_map.mp member
    obtain ⟨onTrail, adds⟩ := List.mem_filter.mp filtered
    exact exactly entry onTrail (.inl (of_decide_eq_true adds))
  have short : position.shortRemainders events = 0 := by
    apply List.sum_eq_zero
    intro value member
    obtain ⟨entry, filtered, rfl⟩ := List.mem_map.mp member
    obtain ⟨onTrail, adds⟩ := List.mem_filter.mp filtered
    exact exactly entry onTrail (.inr (of_decide_eq_true adds))
  rw [long, short, sub_zero]

end Position

namespace PositionTracker

/-- The position of a symbol, flat when it has no slot. -/
def held (tracker : PositionTracker) (sym : StringView) : Position :=
  (tracker.get sym).getD (Position.zeroed (strncpy sym.data 8))

/-- The tracker after a sequence of events, with exact integers. -/
def after (tracker : PositionTracker) (events : List OrderEvent) : PositionTracker :=
  events.foldl (applyEvent .exact) tracker

/-- `realized_pnl - Cash - avg_entry_price * net_qty` after a sequence of events. -/
def discrepancy (tracker : PositionTracker) (sym : StringView) (events : List OrderEvent) : Int :=
  ((tracker.after events).held sym).discrepancy (events.map OrderEvent.cashFlow).sum

/-- The fills of one symbol, with the quantities and prices an exchange reports. -/
def FillsOf (sym : StringView) (events : List OrderEvent) : Prop :=
  ∀ event ∈ events, event.isFill = true ∧ event.symbol.string = fieldKey sym ∧
    0 < event.fillQty ∧ 0 ≤ event.fillPrice

theorem find?_after {tracker : PositionTracker} {sym : StringView} {events : List OrderEvent}
    (fills : FillsOf sym events) {position : Position}
    (found : tracker.find? (fieldKey sym) = some position) :
    (tracker.after events).find? (fieldKey sym) = some (position.applyFills events) := by
  induction events generalizing tracker position with
  | nil => exact found
  | cons event rest ih =>
      obtain ⟨isFill, symbol, _⟩ := fills event List.mem_cons_self
      rw [← symbol] at found
      have booked := find?_applyEvent_self .exact tracker isFill found
      rw [symbol] at booked
      exact ih (fun other member => fills other (List.mem_cons_of_mem _ member)) booked

/-- The first fill takes a cleared slot, and every later one finds it. -/
theorem get_after {tracker : PositionTracker} {sym : StringView} (unheld : tracker.get sym = none)
    (room : tracker.symbolCount < maxSymbols) {events : List OrderEvent}
    (fills : FillsOf sym events) (nonempty : events ≠ []) :
    (tracker.after events).get sym =
      some ((Position.zeroed (strncpy sym.data 8)).applyFills events) := by
  cases events with
  | nil => exact absurd rfl nonempty
  | cons event rest =>
      obtain ⟨isFill, symbol, _⟩ := fills event List.mem_cons_self
      rw [get_eq_find?, ← symbol] at unheld
      have created := find?_applyEvent_of_room .exact tracker isFill unheld room
      have sameSlot : strncpy event.symbolView.data 8 = strncpy sym.data 8 := strncpy_congr symbol
      rw [sameSlot, symbol] at created
      rw [get_eq_find?]
      exact find?_after (fun other member => fills other (List.mem_cons_of_mem _ member)) created

theorem held_after {tracker : PositionTracker} {sym : StringView} (unheld : tracker.get sym = none)
    (room : tracker.symbolCount < maxSymbols) {events : List OrderEvent}
    (fills : FillsOf sym events) :
    (tracker.after events).held sym =
      (Position.zeroed (strncpy sym.data 8)).applyFills events := by
  cases events with
  | nil =>
      change (tracker.get sym).getD _ = _
      rw [unheld]
      rfl
  | cons event rest =>
      rw [held, get_after unheld room fills (List.cons_ne_nil _ _), Option.getD_some]

/-- The rounding account of a symbol's fills, from its first one on. Realized profit, cash
and the cost of the open position differ by the remainders of the averaging divisions:
those of buys into a long position count up, those of sells into a short one count down.
A fill that covers, closes or crosses adds nothing, exact divisions add nothing, and no
fill adds more than the position it leaves, less one. -/
theorem pnl_reconciles (tracker : PositionTracker) {sym : StringView}
    (unheld : tracker.get sym = none) (room : tracker.symbolCount < maxSymbols)
    {events : List OrderEvent} (fills : FillsOf sym events) :
    let flat := Position.zeroed (strncpy sym.data 8)
    (events ≠ [] → (tracker.after events).get sym = some ((tracker.after events).held sym)) ∧
    tracker.discrepancy sym events = flat.longRemainders events - flat.shortRemainders events ∧
    (∀ earlier event later, events = earlier ++ event :: later →
      ¬((tracker.after earlier).held sym).AddsToLong event →
      ¬((tracker.after earlier).held sym).AddsToShort event →
      tracker.discrepancy sym (earlier ++ [event]) = tracker.discrepancy sym earlier) ∧
    ((∀ entry ∈ flat.trail events,
      entry.1.AddsToLong entry.2 ∨ entry.1.AddsToShort entry.2 → entry.1.remainder entry.2 = 0) →
      tracker.discrepancy sym events = 0) ∧
    |tracker.discrepancy sym events| ≤ flat.roundingBound events := by
  intro flat
  have account : tracker.discrepancy sym events =
      flat.longRemainders events - flat.shortRemainders events := by
    have sum := Position.discrepancy_applyFills
      (fun event member => (fills event member).2.2.1) flat 0
    rw [zero_add] at sum
    rw [discrepancy, held_after unheld room fills]
    refine sum.trans ?_
    simp [Position.discrepancy, flat, Position.zeroed]
  refine ⟨?_, account, ?_, ?_, ?_⟩
  · intro nonempty
    rw [held_after unheld room fills]
    exact get_after unheld room fills nonempty
  · rintro earlier event later rfl notLong notShort
    have positive := (fills event (by simp)).2.2.1
    have earlierFills : FillsOf sym earlier := fun other member => fills other (by simp [member])
    have bothFills : FillsOf sym (earlier ++ [event]) := by
      intro other member
      obtain old | last := List.mem_append.mp member
      · exact earlierFills other old
      · cases List.mem_singleton.mp last
        exact fills event (by simp)
    rw [held_after unheld room earlierFills] at notLong notShort
    have step := Position.discrepancy_applyFill positive (flat.applyFills earlier)
      (earlier.map OrderEvent.cashFlow).sum
    rw [Position.rounding, if_neg notLong, if_neg notShort] at step
    rw [discrepancy, discrepancy, held_after unheld room earlierFills,
      held_after unheld room bothFills]
    simpa [Position.applyFills] using step
  · intro exactly
    rw [account]
    exact Position.remainders_eq_zero exactly
  · rw [account]
    exact Position.abs_remainders_le (fun event member => (fills event member).2.2)
      (le_refl (0 : Int))

/-- Two buys of 3 at 10 and 1 at 11 are averaged to 10 with 1 left over; the sell of 6 at
12 crosses to a short position and adds nothing. -/
def crossedFills : List OrderEvent :=
  let fill side qty price :=
    makeFill (StringView.ofList (ascii "AAPL")) side qty price (StringView.ofList (ascii "O1")) true
  [fill .buy 3 10, fill .buy 1 11, fill .sell 6 12]

theorem pnl_reconciles_crossedFills :
    let aapl := StringView.ofList (ascii "AAPL")
    let flat := Position.zeroed (strncpy aapl.data 8)
    initial.discrepancy aapl crossedFills =
      flat.longRemainders crossedFills - flat.shortRemainders crossedFills ∧
    initial.discrepancy aapl crossedFills = 1 :=
  ⟨(pnl_reconciles initial rfl (by decide)
    (by unfold FillsOf; decide +kernel)).2.1, by decide +kernel⟩

end PositionTracker

end Hft
