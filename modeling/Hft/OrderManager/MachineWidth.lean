import Hft.Logical.MachineCost
import Hft.OrderManager.AverageFill

/-!
# Orders at machine widths

An order adds up its fills in 32 bits and multiplies its average price out again in 64. While
no id is filled for more than 31 bits, nor for more than 63 bits of value at the highest price,
the order table of the machine is the one with unbounded integers (`project_eq_exact`).
-/

namespace Hft

open Logical

namespace Order

/-- An order whose fills, of `volume` shares in all, cost between 0 and `cap` each. -/
structure Within (cap volume : Int) (order : Order) : Prop where
  averageNonneg : 0 ≤ order.avgFillPrice
  averageLe : order.avgFillPrice ≤ cap
  filledNonneg : 0 ≤ order.filledQty
  filledLe : order.filledQty ≤ volume
  originalNonneg : 0 ≤ order.originalQty
  originalFits : order.originalQty < 2147483648

variable {arith : Arithmetic} {order : Order} {cap volume : Int} {event : OrderEvent}

theorem within_opened (orderId : CharArray 8) (capNonneg : 0 ≤ cap) (volumeNonneg : 0 ≤ volume)
    (qtyNonneg : 0 ≤ event.qty) (qtyFits : event.qty < 2147483648) :
    (opened orderId event).Within cap volume :=
  ⟨le_rfl, capNonneg, le_rfl, volumeNonneg, qtyNonneg, qtyFits⟩

theorem Within.mono (within : order.Within cap volume) {more : Int} (grown : volume ≤ more) :
    order.Within cap more :=
  { within with filledLe := within.filledLe.trans grown }

section Fill

variable (within : order.Within cap volume) (machine : FitsMachine cap (volume + event.fillQty))
  (positive : 0 < event.fillQty) (priceNonneg : 0 ≤ event.fillPrice)
  (priceLe : event.fillPrice ≤ cap)
include within machine positive priceNonneg priceLe

theorem fill_exact : order.fill arith event = order.fill .exact event := by
  have filledNonneg := within.filledNonneg
  have filledLe := within.filledLe
  have originalNonneg := within.originalNonneg
  have originalFits := within.originalFits
  have volumeFits := machine.volumeFits
  have newFilled : arith.int32 (order.filledQty + event.fillQty) =
      order.filledQty + event.fillQty :=
    arith.int32_exact (inRange_32 (by omega) (by omega))
  have remaining : arith.int32 (order.originalQty - (order.filledQty + event.fillQty)) =
      order.originalQty - (order.filledQty + event.fillQty) :=
    arith.int32_exact (inRange_32 (by omega) (by omega))
  have prevCost : |order.avgFillPrice * order.filledQty| < 9223372036854775808 :=
    abs_mul_lt machine
      (abs_le.mpr ⟨by have := within.averageNonneg; have := machine.capNonneg; omega,
        within.averageLe⟩)
      (abs_le.mpr ⟨by omega, by omega⟩)
  have fillCost : |event.fillPrice * event.fillQty| < 9223372036854775808 :=
    abs_mul_lt machine (abs_le.mpr ⟨by omega, priceLe⟩) (abs_le.mpr ⟨by omega, by omega⟩)
  have newCost := abs_addedCost_lt machine within.averageNonneg within.averageLe filledNonneg
    filledLe positive priceNonneg priceLe
  unfold fill remainingQty
  simp only [newFilled, remaining, arith.int64_exact (inRange_64_of_abs prevCost),
    arith.int64_exact (inRange_64_of_abs fillCost), arith.int64_exact (inRange_64_of_abs newCost)]
  rfl

omit machine in
theorem Within.fill : (order.fill .exact event).Within cap (volume + event.fillQty) := by
  have filledNonneg := within.filledNonneg
  have average := avgFillPrice_fill (show 0 < order.filledQty + event.fillQty by omega)
  refine ⟨?_, ?_, add_nonneg filledNonneg positive.le,
    (add_le_add_iff_right event.fillQty).mpr within.filledLe, within.originalNonneg,
    within.originalFits⟩
  · rw [average]
    exact le_averaged filledNonneg positive within.averageNonneg priceNonneg
  · rw [average]
    exact averaged_le filledNonneg positive within.averageLe priceLe

end Fill

end Order

namespace OrderManager

/-- How much of an id was filled, over all orders that had it. -/
def volume (oid : List UInt8) (events : List OrderEvent) : Int :=
  (events.map fun event =>
    if event.isFill ∧ event.orderId.string = oid then event.fillQty else 0).sum

/-- Quantities and prices that an exchange and a strategy can name: fills of a positive quantity
at a price between 0 and `cap`, and orders of at least nothing, in 32 bits. -/
structure Named (cap : Int) (event : OrderEvent) : Prop where
  fill : event.isFill = true →
    0 < event.fillQty ∧ 0 ≤ event.fillPrice ∧ event.fillPrice ≤ cap
  sized : event.type = .newOrder → 0 ≤ event.qty
  fits : event.qty < 2147483648

theorem volume_concat (oid : List UInt8) (events : List OrderEvent) (event : OrderEvent) :
    volume oid (events ++ [event]) = volume oid events +
      if event.isFill ∧ event.orderId.string = oid then event.fillQty else 0 := by
  simp [volume]

theorem volume_nonneg {cap : Int} {events : List OrderEvent}
    (named : ∀ event ∈ events, Named cap event) (oid : List UInt8) : 0 ≤ volume oid events := by
  apply List.sum_nonneg
  intro quantity member
  obtain ⟨event, inEvents, rfl⟩ := List.mem_map.mp member
  split
  · rename_i filled
    exact ((named event inEvents).fill filled.1).1.le
  · exact le_rfl

/-- Every slot is within the volume of its id. -/
def Within (cap : Int) (orders : OrderManager) (volumeOf : List UInt8 → Int) : Prop :=
  ∀ order ∈ orders.slots, order.Within cap (volumeOf order.key)

section Step

variable {arith : Arithmetic} {cap : Int} {orders : OrderManager} {event : OrderEvent}
  {volumeOf : List UInt8 → Int}

/-- One event, on machine integers and on unbounded ones. Only a fill computes anything. -/
theorem applyEvent_exact (within : orders.Within cap volumeOf) (named : Named cap event)
    (machine : event.isFill = true →
      FitsMachine cap (volumeOf event.orderId.string + event.fillQty)) :
    orders.applyEvent arith event = orders.applyEvent .exact event := by
  by_cases isFill : event.isFill = true
  · obtain ⟨positive, priceNonneg, priceLe⟩ := named.fill isFill
    rw [applyEvent_of_isFill arith orders isFill, applyEvent_of_isFill .exact orders isFill]
    refine SlotTable.update_congr (Order.key_fill arith event) (Order.key_fill .exact event)
      fun order member hit => ?_
    have slot := within order member
    rw [hit] at slot
    exact Order.fill_exact slot (machine isFill) positive priceNonneg priceLe
  · unfold applyEvent
    cases type : event.type <;> simp_all [OrderEvent.isFill]

theorem within_rewrite {order : Order} {volume : Int} (within : order.Within cap volume)
    (capNonneg : 0 ≤ cap) (volumeNonneg : 0 ≤ volume) (named : Named cap event) :
    (rewrite .exact event order).Within cap
      (volume + if event.isFill = true then event.fillQty else 0) := by
  unfold rewrite
  cases type : event.type with
  | newOrder =>
      have notFill : event.isFill = false := by simp [OrderEvent.isFill, type]
      rw [notFill, if_neg Bool.false_ne_true, add_zero]
      exact Order.within_opened _ capNonneg volumeNonneg (named.sized type) named.fits
  | partialFill =>
      have isFill : event.isFill = true := by simp [OrderEvent.isFill, type]
      obtain ⟨positive, priceNonneg, priceLe⟩ := named.fill isFill
      rw [if_pos isFill]
      exact within.fill positive priceNonneg priceLe
  | fullFill =>
      have isFill : event.isFill = true := by simp [OrderEvent.isFill, type]
      obtain ⟨positive, priceNonneg, priceLe⟩ := named.fill isFill
      rw [if_pos isFill]
      exact within.fill positive priceNonneg priceLe
  | cancel => simpa [OrderEvent.isFill, type] using { within with }
  | reject => simpa [OrderEvent.isFill, type] using { within with }
  | amend =>
      have fits := named.fits
      have originalNonneg := within.originalNonneg
      have originalFits := within.originalFits
      have notFill : event.isFill = false := by simp [OrderEvent.isFill, type]
      rw [notFill, if_neg Bool.false_ne_true, add_zero]
      refine ⟨within.averageNonneg, within.averageLe, within.filledNonneg, within.filledLe, ?_, ?_⟩
      · simp only [Order.amend]
        split <;> omega
      · simp only [Order.amend]
        split <;> omega
  | unset => simpa [OrderEvent.isFill, type] using within

/-- What one event does to the volumes. -/
theorem Within.applyEvent (within : orders.Within cap volumeOf) (capNonneg : 0 ≤ cap)
    (named : Named cap event) (nonneg : ∀ oid, 0 ≤ volumeOf oid) :
    (orders.applyEvent .exact event).Within cap fun oid => volumeOf oid +
      if event.isFill ∧ event.orderId.string = oid then event.fillQty else 0 := by
  intro order member
  obtain ⟨old, differs⟩ | ⟨own, written⟩ := (projects .exact).mem_apply member
  · have other : ¬(event.isFill = true ∧ event.orderId.string = order.key) :=
      fun both => differs both.2.symm
    simp only [if_neg other, add_zero]
    exact within order old
  · have same : (event.isFill = true ∧ event.orderId.string = order.key) ↔
        event.isFill = true := and_iff_left own.symm
    simp only [same]
    cases found : orders.find? event.orderId.string with
    | some before =>
        rw [found] at written
        obtain ⟨inTable, sameKey⟩ := SlotTable.find?_eq_some_iff.mp found
        have slot := within before inTable
        rw [sameKey, ← own] at slot
        have rewritten := within_rewrite slot capNonneg (nonneg order.key) named
        rwa [Option.some.inj written] at rewritten
    | none =>
        rw [found, SlotTable.advance, openedBy] at written
        split at written
        · rename_i isNew
          have notFill : event.isFill = false := by simp [OrderEvent.isFill, isNew]
          rw [notFill, if_neg Bool.false_ne_true, add_zero, ← Option.some.inj written]
          exact Order.within_opened _ capNonneg (nonneg _) (named.sized isNew) named.fits
        · cases written

end Step

theorem project_concat (arith : Arithmetic) (events : List OrderEvent) (event : OrderEvent) :
    project arith (events ++ [event]) = (project arith events).applyEvent arith event := by
  rw [project, List.foldl_append]
  rfl

/-- While what is filled under every id fits into 31 bits, and its value at the highest price
into 63, the order table of the machine is the order table of the mathematics, after every
event. -/
theorem project_eq_exact (arith : Arithmetic) {cap : Int} {events : List OrderEvent}
    (named : ∀ event ∈ events, Named cap event)
    (fits : ∀ oid, FitsMachine cap (volume oid events)) :
    ∀ earlier, earlier <+: events → project arith earlier = project .exact earlier := by
  have whole : ∀ earlier, earlier <+: events → project arith earlier = project .exact earlier ∧
      (project .exact earlier).Within cap fun oid => volume oid earlier := by
    intro earlier within
    induction earlier using List.reverseRecOn with
    | nil => exact ⟨rfl, fun order member => absurd member List.not_mem_nil⟩
    | append_singleton before event ih =>
        have capNonneg := (fits []).capNonneg
        have inEvents : ∀ other ∈ before ++ [event], Named cap other :=
          fun other member => named other (within.subset member)
        have last := inEvents event (List.mem_append_right _ List.mem_cons_self)
        have nonneg := volume_nonneg fun other member =>
          inEvents other (List.mem_append_left _ member)
        obtain ⟨same, bounded⟩ := ih ((List.prefix_append before [event]).trans within)
        have machine : event.isFill = true →
            FitsMachine cap (volume event.orderId.string before + event.fillQty) := by
          intro isFill
          obtain ⟨later, rfl⟩ := within
          have rest := volume_nonneg (fun other member =>
            named other (List.mem_append_right _ member)) event.orderId.string
          refine (fits event.orderId.string).of_le ?_
          have grown := volume_concat event.orderId.string before event
          rw [if_pos ⟨isFill, rfl⟩] at grown
          rw [← grown]
          simpa [volume] using rest
        have after := bounded.applyEvent capNonneg last nonneg
        rw [project_concat, project_concat, same]
        refine ⟨applyEvent_exact bounded last machine, ?_⟩
        simp only [volume_concat]
        exact after
  exact fun earlier within => (whole earlier within).1

/-- An order for ten that is filled in two parts. -/
def twoParts : List OrderEvent :=
  let sym := StringView.ofList (ascii "AAPL")
  let oid := StringView.ofList (ascii "O1")
  [makeNewOrder sym .buy 10 5 oid, makeFill sym .buy 4 5 oid true, makeFill sym .buy 6 4 oid false]

/-- Two's complement integers book it exactly. -/
theorem project_eq_exact_twoParts : project .wrapping twoParts = project .exact twoParts := by
  refine project_eq_exact .wrapping (show ∀ event ∈ twoParts, Named 5 event from ?_)
    (fun oid => ?_) twoParts List.prefix_rfl
  · intro event member
    simp only [twoParts, List.mem_cons, List.not_mem_nil, or_false] at member
    obtain rfl | rfl | rfl := member <;> exact ⟨by decide, by decide, by decide⟩
  · have small : volume oid twoParts ≤ 10 := by
      simp only [volume, twoParts, List.map_cons, List.map_nil, List.sum_cons, List.sum_nil,
        add_zero]
      split_ifs <;> decide
    exact ⟨by norm_num, by omega, by omega⟩

end OrderManager

end Hft
