import Hft.Logical.MachineCost
import Hft.PositionTracker.Calls
import Hft.PositionTracker.Reconciliation
import Mathlib.Algebra.Order.BigOperators.Group.List

/-!
# Positions at machine widths

A position is computed in 32- and 64-bit integers, and a signed overflow is undefined. While
the quantity traded in a symbol fits into 31 bits, and its value at the highest price into 63,
no intermediate result of `apply_buy`, `apply_sell` or `mark_to_market` leaves its type:
whatever the machine makes of an overflow, the tracker is the one with unbounded integers
(`run_eq_exact`), and all that is known of that one holds of the machine.
-/

namespace Hft

open Logical

namespace Position

/-- A position valued at prices between 0 and `cap`, after fills of `volume` shares in all. -/
structure Valued (cap volume : Int) (position : Position) : Prop where
  entryNonneg : 0 ≤ position.avgEntryPrice
  entryLe : position.avgEntryPrice ≤ cap
  lastNonneg : 0 ≤ position.lastPrice
  lastLe : position.lastPrice ≤ cap
  held : |position.netQty| ≤ volume
  realized : |position.realizedPnl| ≤ cap * (volume - |position.netQty|)

/-- Its totals are within the volume, too. -/
structure Within (cap volume : Int) (position : Position) : Prop
    extends Valued cap volume position where
  bought : 0 ≤ position.totalBuyQty
  sold : 0 ≤ position.totalSellQty
  turnover : position.totalBuyQty + position.totalSellQty ≤ volume

section Width

variable {arith : Arithmetic} {position : Position} {cap volume qty price : Int}

theorem within_zeroed (symbol : CharArray 8) (capNonneg : 0 ≤ cap) :
    (zeroed symbol).Within cap 0 where
  entryNonneg := le_rfl
  entryLe := capNonneg
  lastNonneg := le_rfl
  lastLe := capNonneg
  held := le_rfl
  realized := by simp [zeroed]
  bought := le_rfl
  sold := le_rfl
  turnover := le_rfl

theorem refreshUnrealized_exact (machine : FitsMachine cap volume)
    (within : |position.netQty| ≤ volume)
    (entryNonneg : 0 ≤ position.avgEntryPrice) (entryLe : position.avgEntryPrice ≤ cap)
    (lastNonneg : 0 ≤ position.lastPrice) (lastLe : position.lastPrice ≤ cap) :
    position.refreshUnrealized arith = position.refreshUnrealized .exact := by
  have spread := abs_sub_le_cap lastNonneg lastLe entryNonneg entryLe
  have value := abs_mul_lt machine spread within
  unfold refreshUnrealized
  by_cases valued : 0 < position.lastPrice ∧ position.netQty ≠ 0
  · have holds : 0 < volume := (abs_pos.mpr valued.2).trans_le within
    have cap := machine.cap_lt holds
    simp only [if_pos valued, Arithmetic.exact_int64]
    rw [arith.int64_exact (inRange_64_of_abs (spread.trans_lt cap)),
      arith.int64_exact (inRange_64_of_abs value)]
  · simp only [if_neg valued]

/-- The realized profit after a close. -/
theorem abs_closed_lt (within : position.Valued cap volume)
    (machine : FitsMachine cap (volume + qty)) (positive : 0 < qty) {spread closed : Int}
    (priced : |spread| ≤ cap) (part : |closed| ≤ |position.netQty|) :
    |position.realizedPnl + spread * closed| < 9223372036854775808 := by
  have gain : |spread * closed| ≤ cap * |position.netQty| := by
    rw [abs_mul]
    exact mul_le_mul priced part (abs_nonneg _) machine.capNonneg
  calc |position.realizedPnl + spread * closed|
      ≤ |position.realizedPnl| + |spread * closed| := abs_add_le _ _
    _ ≤ cap * (volume - |position.netQty|) + cap * |position.netQty| :=
        add_le_add within.realized gain
    _ = cap * volume := by ring
    _ ≤ cap * (volume + qty) := mul_le_mul_of_nonneg_left (by omega) machine.capNonneg
    _ < 9223372036854775808 := machine.costFits

section Booked

variable (within : position.Valued cap volume) (machine : FitsMachine cap (volume + qty))
  (positive : 0 < qty) (priceNonneg : 0 ≤ price) (priceLe : price ≤ cap)
include within machine positive priceNonneg priceLe

theorem bookBuy_exact : position.bookBuy arith qty price = position.bookBuy .exact qty price := by
  obtain ⟨low, high⟩ := abs_le.mp within.held
  have capFits := machine.cap_lt (by omega)
  have volumeFits := machine.volumeFits
  have newQty : arith.int64 (position.netQty + qty) = position.netQty + qty :=
    arith.int64_exact (inRange_64 (by omega) (by omega))
  unfold bookBuy
  by_cases long : 0 ≤ position.netQty
  · have ownCost : |position.avgEntryPrice * position.netQty| < 9223372036854775808 :=
      abs_mul_lt machine
        (abs_le.mpr ⟨by linarith [within.entryNonneg, machine.capNonneg], within.entryLe⟩)
        (within.held.trans (by omega))
    have fillCost : |price * qty| < 9223372036854775808 :=
      abs_mul_lt machine (abs_le.mpr ⟨by omega, priceLe⟩) (abs_le.mpr ⟨by omega, by omega⟩)
    have newCost := abs_addedCost_lt machine within.entryNonneg within.entryLe long high positive
      priceNonneg priceLe
    simp only [if_pos long, newQty, arith.int64_exact (inRange_64_of_abs ownCost),
      arith.int64_exact (inRange_64_of_abs fillCost),
      arith.int64_exact (inRange_64_of_abs newCost), Arithmetic.exact_int64]
    rfl
  · have negated : arith.int64 (-position.netQty) = -position.netQty :=
      arith.int64_exact (inRange_64 (by omega) (by omega))
    have spread := abs_sub_le_cap within.entryNonneg within.entryLe priceNonneg priceLe
    have magnitude : |position.netQty| = -position.netQty := abs_of_neg (by omega)
    have part : |if qty ≤ -position.netQty then qty else -position.netQty| ≤ |position.netQty| := by
      rw [magnitude, abs_le]
      split <;> omega
    have gain := abs_mul_lt machine spread (part.trans (within.held.trans (by omega)))
    have closed := abs_closed_lt within machine positive spread part
    simp only [if_neg long, newQty, negated, arith.int64_exact (inRange_64_of_abs gain),
      arith.int64_exact (inRange_64_of_abs (spread.trans_lt capFits)),
      arith.int64_exact (inRange_64_of_abs closed), Arithmetic.exact_int64]
    rfl

theorem bookSell_exact :
    position.bookSell arith qty price = position.bookSell .exact qty price := by
  obtain ⟨low, high⟩ := abs_le.mp within.held
  have capFits := machine.cap_lt (by omega)
  have volumeFits := machine.volumeFits
  have newQty : arith.int64 (position.netQty - qty) = position.netQty - qty :=
    arith.int64_exact (inRange_64 (by omega) (by omega))
  unfold bookSell
  by_cases long : 0 < position.netQty
  · have spread := abs_sub_le_cap priceNonneg priceLe within.entryNonneg within.entryLe
    have magnitude : |position.netQty| = position.netQty := abs_of_pos long
    have part : |if qty ≤ position.netQty then qty else position.netQty| ≤ |position.netQty| := by
      rw [magnitude, abs_le]
      split <;> omega
    have gain := abs_mul_lt machine spread (part.trans (within.held.trans (by omega)))
    have closed := abs_closed_lt within machine positive spread part
    simp only [if_pos long, newQty, arith.int64_exact (inRange_64_of_abs gain),
      arith.int64_exact (inRange_64_of_abs (spread.trans_lt capFits)),
      arith.int64_exact (inRange_64_of_abs closed), Arithmetic.exact_int64]
    rfl
  · have negated : arith.int64 (-position.netQty) = -position.netQty :=
      arith.int64_exact (inRange_64 (by omega) (by omega))
    have total : arith.int64 (-position.netQty + qty) = -position.netQty + qty :=
      arith.int64_exact (inRange_64 (by omega) (by omega))
    have ownCost : |position.avgEntryPrice * -position.netQty| < 9223372036854775808 :=
      abs_mul_lt machine
        (abs_le.mpr ⟨by linarith [within.entryNonneg, machine.capNonneg], within.entryLe⟩)
        ((abs_neg position.netQty).trans_le (within.held.trans (by omega)))
    have fillCost : |price * qty| < 9223372036854775808 :=
      abs_mul_lt machine (abs_le.mpr ⟨by omega, priceLe⟩) (abs_le.mpr ⟨by omega, by omega⟩)
    have newCost := abs_addedCost_lt machine within.entryNonneg within.entryLe
      (show 0 ≤ -position.netQty by omega) (by omega) positive priceNonneg priceLe
    simp only [if_neg long, newQty, negated, total, arith.int64_exact (inRange_64_of_abs ownCost),
      arith.int64_exact (inRange_64_of_abs fillCost),
      arith.int64_exact (inRange_64_of_abs newCost), Arithmetic.exact_int64]
    rfl

end Booked

theorem avgEntryPrice_applyFill_le (within : position.Within cap volume) {event : OrderEvent}
    (capNonneg : 0 ≤ cap) (positive : 0 < event.fillQty) (priceLe : event.fillPrice ≤ cap) :
    (position.applyFill .exact event).avgEntryPrice ≤ cap := by
  rw [avgEntryPrice_applyFill, entryPrice]
  split_ifs with along
  · exact averaged_le along positive within.entryLe priceLe
  · exact capNonneg
  · exact priceLe
  · exact capNonneg
  · exact within.entryLe

/-- A fill books its quantity, once where it opens and twice where it closes. -/
theorem closedQty_bounds {held : Int} (positive : 0 < qty) :
    0 ≤ closedQty held qty ∧ closedQty held qty ≤ qty + |held| - |held + qty| := by
  unfold closedQty
  by_cases along : 0 ≤ held
  · rw [if_pos along, abs_of_nonneg along, abs_of_nonneg (by omega)]
    omega
  · rw [if_neg along, abs_of_neg (by omega)]
    by_cases covers : qty ≤ -held
    · rw [if_pos covers, abs_of_nonpos (by omega)]
      omega
    · rw [if_neg covers, abs_of_pos (by omega)]
      omega

/-- A fill adds its quantity to the volume and keeps the position within it. -/
theorem Within.applyFill (within : position.Within cap volume) {event : OrderEvent}
    (capNonneg : 0 ≤ cap) (positive : 0 < event.fillQty) (priceNonneg : 0 ≤ event.fillPrice)
    (priceLe : event.fillPrice ≤ cap) :
    (position.applyFill .exact event).Within cap (volume + event.fillQty) := by
  have signed : ∀ value : Int, |event.side.sign * value| = |value| := by
    intro value
    obtain sign | sign := event.side.sign_eq <;> rw [sign] <;> simp
  have moved : |(position.applyFill .exact event).netQty| =
      |event.side.sign * position.netQty + event.fillQty| := by
    rw [← signed, sign_mul_netQty_applyFill]
  obtain ⟨closedNonneg, closedLe⟩ :=
    @closedQty_bounds event.fillQty (event.side.sign * position.netQty) positive
  rw [← moved, signed] at closedLe
  have spread := abs_sub_le_cap within.entryNonneg within.entryLe priceNonneg priceLe
  refine ⟨⟨avgEntryPrice_applyFill_nonneg positive priceNonneg within.entryNonneg,
    avgEntryPrice_applyFill_le within capNonneg positive priceLe, ?_, ?_, ?_, ?_⟩, ?_, ?_, ?_⟩
  · rw [lastPrice_applyFill]
    exact within.lastNonneg
  · rw [lastPrice_applyFill]
    exact within.lastLe
  · have grown := abs_add_le (event.side.sign * position.netQty) event.fillQty
    rw [signed, abs_of_pos positive] at grown
    rw [moved]
    exact grown.trans (by have := within.held; omega)
  · rw [realizedPnl_applyFill]
    have gain : |event.side.sign * ((position.avgEntryPrice - event.fillPrice) *
        closedQty (event.side.sign * position.netQty) event.fillQty)| ≤
          cap * closedQty (event.side.sign * position.netQty) event.fillQty := by
      rw [signed, abs_mul, abs_of_nonneg closedNonneg]
      exact mul_le_mul_of_nonneg_right spread closedNonneg
    calc _ ≤ |position.realizedPnl| + _ := abs_add_le _ _
      _ ≤ cap * (volume - |position.netQty|) +
          cap * closedQty (event.side.sign * position.netQty) event.fillQty :=
        add_le_add within.realized gain
      _ = cap * (volume - |position.netQty| +
          closedQty (event.side.sign * position.netQty) event.fillQty) := by ring
      _ ≤ cap * (volume + event.fillQty - |(position.applyFill .exact event).netQty|) :=
        mul_le_mul_of_nonneg_left (by omega) capNonneg
  · rw [totalBuyQty_applyFill]
    have := within.bought
    split
    · exact add_nonneg within.bought positive.le
    · exact within.bought
  · rw [totalSellQty_applyFill]
    split
    · exact within.sold
    · exact add_nonneg within.sold positive.le
  · have turnover := within.turnover
    rw [totalBuyQty_applyFill, totalSellQty_applyFill]
    simp only [Arithmetic.exact]
    split <;> linarith

/-- What is booked is revalued alike, with values that are those of the whole fill. -/
theorem refreshUnrealized_booked (after : Valued cap volume position)
    (machine : FitsMachine cap volume) :
    position.refreshUnrealized arith = position.refreshUnrealized .exact :=
  refreshUnrealized_exact machine after.held after.entryNonneg after.entryLe after.lastNonneg
    after.lastLe

/-- On the machine a fill is booked as with unbounded integers. -/
theorem applyFill_exact (within : position.Within cap volume) {event : OrderEvent}
    (machine : FitsMachine cap (volume + event.fillQty)) (positive : 0 < event.fillQty)
    (priceNonneg : 0 ≤ event.fillPrice) (priceLe : event.fillPrice ≤ cap) :
    position.applyFill arith event = position.applyFill .exact event := by
  have volumeFits := machine.volumeFits
  have turnover := within.turnover
  have bought := within.bought
  have sold := within.sold
  have after := (within.applyFill machine.capNonneg positive priceNonneg priceLe).toValued
  unfold applyFill at after ⊢
  by_cases buys : event.side = .buy
  · rw [if_pos buys] at after ⊢
    rw [if_pos buys]
    have total : arith.int32 (position.totalBuyQty + event.fillQty) =
        position.totalBuyQty + event.fillQty :=
      arith.int32_exact (inRange_32 (by omega) (by omega))
    have counted : Valued cap volume
        { position with totalBuyQty := position.totalBuyQty + event.fillQty } :=
      ⟨within.entryNonneg, within.entryLe, within.lastNonneg, within.lastLe, within.held,
        within.realized⟩
    have booked : Valued cap (volume + event.fillQty) (bookBuy .exact event.fillQty event.fillPrice
        { position with totalBuyQty := position.totalBuyQty + event.fillQty }) :=
      ⟨after.entryNonneg, after.entryLe, after.lastNonneg, after.lastLe, after.held,
        after.realized⟩
    simp only [applyBuy, total, bookBuy_exact counted machine positive priceNonneg priceLe,
      refreshUnrealized_booked booked machine]
    rfl
  · rw [if_neg buys] at after ⊢
    rw [if_neg buys]
    have total : arith.int32 (position.totalSellQty + event.fillQty) =
        position.totalSellQty + event.fillQty :=
      arith.int32_exact (inRange_32 (by omega) (by omega))
    have counted : Valued cap volume
        { position with totalSellQty := position.totalSellQty + event.fillQty } :=
      ⟨within.entryNonneg, within.entryLe, within.lastNonneg, within.lastLe, within.held,
        within.realized⟩
    have booked : Valued cap (volume + event.fillQty) (bookSell .exact event.fillQty
        event.fillPrice { position with totalSellQty := position.totalSellQty + event.fillQty }) :=
      ⟨after.entryNonneg, after.entryLe, after.lastNonneg, after.lastLe, after.held,
        after.realized⟩
    simp only [applySell, total, bookSell_exact counted machine positive priceNonneg priceLe,
      refreshUnrealized_booked booked machine]
    rfl

/-- So is a mark. -/
theorem mark_exact (within : position.Within cap volume) (machine : FitsMachine cap volume)
    {mktPriceFp : Int} (priceNonneg : 0 ≤ mktPriceFp) (priceLe : mktPriceFp ≤ cap) :
    position.mark arith mktPriceFp = position.mark .exact mktPriceFp := by
  unfold mark
  by_cases flat : position.isFlat = true
  · rw [if_pos flat, if_pos flat]
  · have holds : position.netQty ≠ 0 := by simpa [isFlat] using flat
    have capFits := machine.cap_lt ((abs_pos.mpr holds).trans_le within.held)
    have spread := abs_sub_le_cap priceNonneg priceLe within.entryNonneg within.entryLe
    have value := abs_mul_lt machine spread within.held
    rw [if_neg flat, if_neg flat, arith.int64_exact (inRange_64_of_abs (spread.trans_lt capFits)),
      arith.int64_exact (inRange_64_of_abs value)]
    rfl

theorem Within.mark (within : position.Within cap volume) {mktPriceFp : Int}
    (priceNonneg : 0 ≤ mktPriceFp) (priceLe : mktPriceFp ≤ cap) :
    (position.mark .exact mktPriceFp).Within cap volume := by
  unfold Position.mark
  split
  · exact within
  · exact ⟨⟨within.entryNonneg, within.entryLe, priceNonneg, priceLe, within.held,
      within.realized⟩, within.bought, within.sold, within.turnover⟩

/-- More volume leaves more room. -/
theorem Within.mono (within : position.Within cap volume) (capNonneg : 0 ≤ cap) {more : Int}
    (grown : volume ≤ more) : position.Within cap more where
  toValued := ⟨within.entryNonneg, within.entryLe, within.lastNonneg, within.lastLe,
    within.held.trans grown,
    within.realized.trans (mul_le_mul_of_nonneg_left (by omega) capNonneg)⟩
  bought := within.bought
  sold := within.sold
  turnover := within.turnover.trans grown

end Width

end Position

namespace PositionTracker

/-- What a call adds to the volume of a symbol. -/
def Call.quantity (symbol : List UInt8) : Call → Int
  | .applyEvent event =>
      if event.isFill ∧ event.symbol.string = symbol then event.fillQty else 0
  | .markToMarket _ _ => 0

/-- How much of a symbol was traded, both sides taken together. -/
def volume (symbol : List UInt8) (calls : List Call) : Int :=
  (calls.map (Call.quantity symbol)).sum

/-- A fill of a positive quantity or a mark, at a price between 0 and `cap`. -/
def Call.Priced (cap : Int) : Call → Prop
  | .applyEvent event =>
      event.isFill = true → 0 < event.fillQty ∧ 0 ≤ event.fillPrice ∧ event.fillPrice ≤ cap
  | .markToMarket _ mktPriceFp => 0 ≤ mktPriceFp ∧ mktPriceFp ≤ cap

theorem volume_concat (symbol : List UInt8) (calls : List Call) (call : Call) :
    volume symbol (calls ++ [call]) = volume symbol calls + call.quantity symbol := by
  simp [volume]

theorem Call.Priced.quantity_nonneg {cap : Int} {call : Call} (priced : call.Priced cap)
    (symbol : List UInt8) : 0 ≤ call.quantity symbol := by
  cases call with
  | applyEvent event =>
      simp only [Call.quantity]
      split
      · rename_i traded
        exact (priced traded.1).1.le
      · exact le_rfl
  | markToMarket sym mktPriceFp => exact le_rfl

theorem volume_nonneg {cap : Int} {calls : List Call} (priced : ∀ call ∈ calls, call.Priced cap)
    (symbol : List UInt8) : 0 ≤ volume symbol calls := by
  apply List.sum_nonneg
  intro quantity member
  obtain ⟨call, inCalls, rfl⟩ := List.mem_map.mp member
  exact (priced call inCalls).quantity_nonneg symbol

/-- Every slot is within the volume of its symbol. -/
def WithinVolumes (cap : Int) (tracker : PositionTracker) (volumeOf : List UInt8 → Int) : Prop :=
  ∀ position ∈ tracker.slots, position.Within cap (volumeOf position.key)

section Step

variable {arith : Arithmetic} {cap : Int} {tracker : PositionTracker}
  {volumeOf : List UInt8 → Int}

/-- One call, on machine integers and on unbounded ones. -/
theorem perform_exact (within : tracker.WithinVolumes cap volumeOf) {call : Call}
    (priced : call.Priced cap) (nonneg : ∀ symbol, 0 ≤ volumeOf symbol)
    (fits : ∀ symbol, FitsMachine cap (volumeOf symbol + call.quantity symbol)) :
    tracker.perform arith call = tracker.perform .exact call := by
  cases call with
  | applyEvent event =>
      by_cases isFill : event.isFill = true
      · obtain ⟨positive, priceNonneg, priceLe⟩ := priced isFill
        have machine := fits event.symbol.string
        rw [Call.quantity, if_pos ⟨isFill, rfl⟩] at machine
        have cleared := (Position.within_zeroed (strncpy event.symbolView.data 8)
          machine.capNonneg).mono machine.capNonneg (nonneg event.symbol.string)
        have record := @Position.applyFill_exact arith _ _ _ cleared event machine positive
          priceNonneg priceLe
        simp only [perform, applyEvent, if_pos isFill, record]
        refine SlotTable.upsert_congr _ _ fun position member named => ?_
        rw [Position.key_applyFill, Position.key_zeroed, string_strncpy] at named
        have slot := within position member
        rw [named] at slot
        exact Position.applyFill_exact slot machine positive priceNonneg priceLe
      · rw [Bool.not_eq_true] at isFill
        simp only [perform, applyEvent_of_not_fill _ _ isFill]
  | markToMarket sym mktPriceFp =>
      refine SlotTable.update_congr (Position.key_mark arith mktPriceFp)
        (Position.key_mark .exact mktPriceFp) fun position member _ => ?_
      have machine := fits position.key
      rw [Call.quantity, add_zero] at machine
      exact Position.mark_exact (within position member) machine priced.1 priced.2

/-- What one call does to the volumes. -/
theorem WithinVolumes.perform (within : tracker.WithinVolumes cap volumeOf) (capNonneg : 0 ≤ cap)
    {call : Call} (priced : call.Priced cap) (nonneg : ∀ symbol, 0 ≤ volumeOf symbol) :
    (tracker.perform .exact call).WithinVolumes cap fun symbol =>
      volumeOf symbol + call.quantity symbol := by
  intro position member
  have grown : volumeOf position.key ≤ volumeOf position.key + call.quantity position.key :=
    le_add_of_nonneg_right (priced.quantity_nonneg position.key)
  cases call with
  | applyEvent event =>
      by_cases isFill : event.isFill = true
      · obtain ⟨positive, priceNonneg, priceLe⟩ := priced isFill
        obtain ⟨old, _⟩ | ⟨named, written⟩ := (projects .exact).mem_apply member
        · exact (within position old).mono capNonneg grown
        · have own : Call.quantity position.key (.applyEvent event) = event.fillQty := by
            rw [Call.quantity, if_pos ⟨isFill, named.symm⟩]
          simp only [own]
          cases found : tracker.find? event.symbol.string with
          | some before =>
              rw [found, SlotTable.advance, booked, if_pos isFill] at written
              obtain ⟨inTable, sameKey⟩ := SlotTable.find?_eq_some_iff.mp found
              have slot := within before inTable
              rw [sameKey, ← named] at slot
              rw [← Option.some.inj written] at slot ⊢
              exact slot.applyFill capNonneg positive priceNonneg priceLe
          | none =>
              rw [found, SlotTable.advance, openedBy, if_pos isFill] at written
              have cleared := (Position.within_zeroed (strncpy event.symbolView.data 8)
                capNonneg).mono capNonneg (nonneg position.key)
              rw [← Option.some.inj written] at cleared ⊢
              exact cleared.applyFill capNonneg positive priceNonneg priceLe
      · rw [Bool.not_eq_true] at isFill
        rw [PositionTracker.perform, applyEvent_of_not_fill _ _ isFill] at member
        exact (within position member).mono capNonneg grown
  | markToMarket sym mktPriceFp =>
      obtain old | ⟨before, inTable, rfl⟩ := mem_markToMarket member
      · exact (within position old).mono capNonneg grown
      · rw [Position.key_mark] at grown ⊢
        exact ((within before inTable).mark priced.1 priced.2).mono capNonneg grown

end Step

/-- Call by call, the machine computes what the mathematics does, and stays within the volumes
traded so far. -/
theorem run_within (arith : Arithmetic) {cap : Int} {calls : List Call}
    (priced : ∀ call ∈ calls, call.Priced cap)
    (fits : ∀ symbol, FitsMachine cap (volume symbol calls)) :
    ∀ earlier, earlier <+: calls → run arith earlier = run .exact earlier ∧
      (run .exact earlier).WithinVolumes cap fun symbol => volume symbol earlier := by
  intro earlier within
  induction earlier using List.reverseRecOn with
  | nil => exact ⟨rfl, fun position member => absurd member List.not_mem_nil⟩
  | append_singleton before call ih =>
      have capNonneg := (fits []).capNonneg
      have inCalls : ∀ other ∈ before ++ [call], other.Priced cap :=
        fun other member => priced other (within.subset member)
      have last := inCalls call (List.mem_append_right _ List.mem_cons_self)
      have nonneg := volume_nonneg fun other member => inCalls other (List.mem_append_left _ member)
      obtain ⟨same, bounded⟩ := ih ((List.prefix_append before [call]).trans within)
      have machine : ∀ symbol,
          FitsMachine cap (volume symbol before + call.quantity symbol) := by
        intro symbol
        obtain ⟨later, rfl⟩ := within
        have rest := volume_nonneg (fun other member =>
          priced other (List.mem_append_right _ member)) symbol
        refine (fits symbol).of_le ?_
        rw [← volume_concat]
        simpa [volume] using rest
      have after := bounded.perform capNonneg last nonneg
      rw [run_concat, run_concat, same]
      refine ⟨perform_exact bounded last nonneg machine, ?_⟩
      simp only [volume_concat]
      exact after

/-- While the volume of every symbol fits into 31 bits, and its value at the highest price into
63, the tracker of the machine is the tracker of the mathematics, in every field of every slot
and after every call. -/
theorem run_eq_exact (arith : Arithmetic) {cap : Int} {calls : List Call}
    (priced : ∀ call ∈ calls, call.Priced cap)
    (fits : ∀ symbol, FitsMachine cap (volume symbol calls)) :
    ∀ earlier, earlier <+: calls → run arith earlier = run .exact earlier :=
  fun earlier within => (run_within arith priced fits earlier within).1

/-- Bought and sold short in two parts each, at prices that do not average evenly, and marked. -/
def averagedCalls : List Call :=
  let aapl := StringView.ofList (ascii "AAPL")
  let msft := StringView.ofList (ascii "MSFT")
  let oid := StringView.ofList (ascii "O1")
  [.applyEvent (makeFill aapl .buy 10 5 oid true), .applyEvent (makeFill msft .sell 4 7 oid true),
    .applyEvent (makeFill aapl .buy 5 6 oid false), .markToMarket aapl 8,
    .applyEvent (makeFill msft .sell 3 8 oid false), .markToMarket msft 6]

theorem priced_averagedCalls : ∀ call ∈ averagedCalls, call.Priced 8 := by
  intro call member
  simp only [averagedCalls, List.mem_cons, List.not_mem_nil, or_false] at member
  obtain rfl | rfl | rfl | rfl | rfl | rfl := member
  · exact fun _ => by decide
  · exact fun _ => by decide
  · exact fun _ => by decide
  · exact ⟨by decide, by decide⟩
  · exact fun _ => by decide
  · exact ⟨by decide, by decide⟩

theorem fits_averagedCalls (symbol : List UInt8) :
    FitsMachine 8 (volume symbol averagedCalls) := by
  have small : volume symbol averagedCalls ≤ 22 := by
    simp only [volume, averagedCalls, List.map_cons, List.map_nil, Call.quantity, List.sum_cons,
      List.sum_nil, zero_add, add_zero]
    split_ifs <;> decide
  exact ⟨by norm_num, by omega, by omega⟩

/-- Neither remainder gets in the way of two's complement integers. -/
theorem run_eq_exact_averaged : run .wrapping averagedCalls = run .exact averagedCalls :=
  run_eq_exact .wrapping priced_averagedCalls fits_averagedCalls averagedCalls List.prefix_rfl

end PositionTracker

end Hft
