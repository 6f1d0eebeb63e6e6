import Hft.Projections
import Mathlib.Algebra.Order.BigOperators.Group.List

/-!
# Bought and sold

With positive fills, a symbol's position is what was bought less what was sold while the two
totals are far from 64 bits, and a position that comes back to zero keeps no entry price.
The two branches that average look at the sign of the new quantity before they divide, the
other two clear the price themselves.
-/

namespace Hft

open Logical

/-- A fill after which nothing is held leaves no entry price behind. -/
theorem Position.avgEntryPrice_applyFill_of_flat (arith : Arithmetic) {event : OrderEvent}
    {position : Position} (held : InRange 64 (-position.netQty))
    (moved : InRange 64 (position.netQty + event.side.sign * event.fillQty))
    (flat : (position.applyFill arith event).netQty = 0) :
    (position.applyFill arith event).avgEntryPrice = 0 := by
  rw [netQty_applyFill, arith.int64_exact moved] at flat
  unfold applyFill
  unfold Side.sign at flat
  split at flat
  · rename_i buys
    rw [one_mul] at flat
    simp only [if_pos buys, applyBuy, refreshUnrealized, bookBuy]
    have small : arith.int64 0 = 0 := arith.int64_exact (by decide)
    split <;> simp [flat, small]
  · rename_i sells
    have same : event.fillQty = position.netQty := by omega
    have small : arith.int64 0 = 0 := arith.int64_exact (by decide)
    simp only [if_neg sells, applySell, refreshUnrealized, bookSell]
    split <;> simp [same, small, arith.int64_exact held]

namespace PositionTracker

/-- The quantity bought by the fills of one symbol. -/
def totalBuyQty (fills : List OrderEvent) : Int :=
  ((fills.filter fun fill => fill.side = .buy).map OrderEvent.fillQty).sum

/-- The quantity sold: whatever is no buy is a sell. -/
def totalSellQty (fills : List OrderEvent) : Int :=
  ((fills.filter fun fill => fill.side ≠ .buy).map OrderEvent.fillQty).sum

theorem fillsOf_append (sym : StringView) (events later : List OrderEvent) :
    fillsOf sym (events ++ later) = fillsOf sym events ++ fillsOf sym later :=
  List.filter_append ..

@[simp] theorem totalBuyQty_append (fills later : List OrderEvent) :
    totalBuyQty (fills ++ later) = totalBuyQty fills + totalBuyQty later := by
  simp [totalBuyQty]

@[simp] theorem totalSellQty_append (fills later : List OrderEvent) :
    totalSellQty (fills ++ later) = totalSellQty fills + totalSellQty later := by
  simp [totalSellQty]

theorem totalBuyQty_nonneg {fills : List OrderEvent} (positive : ∀ fill ∈ fills, 0 < fill.fillQty) :
    0 ≤ totalBuyQty fills := by
  refine List.sum_nonneg ?_
  intro qty member
  obtain ⟨fill, inBuys, rfl⟩ := List.mem_map.mp member
  exact (positive fill (List.mem_filter.mp inBuys).1).le

theorem totalSellQty_nonneg {fills : List OrderEvent}
    (positive : ∀ fill ∈ fills, 0 < fill.fillQty) : 0 ≤ totalSellQty fills := by
  refine List.sum_nonneg ?_
  intro qty member
  obtain ⟨fill, inSells, rfl⟩ := List.mem_map.mp member
  exact (positive fill (List.mem_filter.mp inSells).1).le

/-- Fills that all buy. -/
theorem totals_of_buys {fills : List OrderEvent} (buys : ∀ fill ∈ fills, fill.side = .buy) :
    totalBuyQty fills = (fills.map OrderEvent.fillQty).sum ∧ totalSellQty fills = 0 := by
  have all : (fills.filter fun fill => fill.side = .buy) = fills :=
    List.filter_eq_self.mpr (by simpa using buys)
  have none : (fills.filter fun fill => fill.side ≠ .buy) = [] :=
    List.filter_eq_nil_iff.mpr (by simpa using buys)
  simp only [totalBuyQty, totalSellQty, all, none, List.map_nil, List.sum_nil, and_self]

/-- Fills that all sell. -/
theorem totals_of_sells {fills : List OrderEvent} (sells : ∀ fill ∈ fills, fill.side ≠ .buy) :
    totalBuyQty fills = 0 ∧ totalSellQty fills = (fills.map OrderEvent.fillQty).sum := by
  have none : (fills.filter fun fill => fill.side = .buy) = [] :=
    List.filter_eq_nil_iff.mpr (by simpa using sells)
  have all : (fills.filter fun fill => fill.side ≠ .buy) = fills :=
    List.filter_eq_self.mpr (by simpa using sells)
  simp only [totalBuyQty, totalSellQty, all, none, List.map_nil, List.sum_nil, and_self]

/-- One fill adds to one of the totals. -/
theorem totals_singleton (fill : OrderEvent) :
    totalBuyQty [fill] - totalSellQty [fill] = fill.side.sign * fill.fillQty := by
  unfold totalBuyQty totalSellQty Side.sign
  by_cases buys : fill.side = .buy <;> simp [buys]

theorem signedTotal_eq (fills : List OrderEvent) :
    signedTotal fills = totalBuyQty fills - totalSellQty fills := by
  induction fills using List.reverseRecOn with
  | nil => rfl
  | append_singleton earlier fill ih =>
      rw [signedTotal_concat, totalBuyQty_append, totalSellQty_append, ih, ← totals_singleton]
      ring

/-- The position is the difference of the totals, and flat means no entry price. -/
theorem foldFills_of_totals (arith : Arithmetic) (sym : StringView) {fills : List OrderEvent}
    (positive : ∀ fill ∈ fills, 0 < fill.fillQty) (bought : totalBuyQty fills < 2 ^ 62)
    (sold : totalSellQty fills < 2 ^ 62) :
    (foldFills arith sym fills).netQty = totalBuyQty fills - totalSellQty fills ∧
      ((foldFills arith sym fills).netQty = 0 → (foldFills arith sym fills).avgEntryPrice = 0) := by
  induction fills using List.reverseRecOn with
  | nil => exact ⟨rfl, fun _ => rfl⟩
  | append_singleton earlier fill ih =>
      have before : ∀ fill ∈ earlier, 0 < fill.fillQty :=
        fun other member => positive other (List.mem_append_left _ member)
      have last : ∀ other ∈ [fill], 0 < other.fillQty :=
        fun other member => positive other (List.mem_append_right _ member)
      rw [totalBuyQty_append] at bought ⊢
      rw [totalSellQty_append] at sold ⊢
      have boughtBefore := totalBuyQty_nonneg before
      have soldBefore := totalSellQty_nonneg before
      have boughtLast := totalBuyQty_nonneg last
      have soldLast := totalSellQty_nonneg last
      have moved := totals_singleton fill
      norm_num at bought sold ih
      obtain ⟨net, _⟩ := ih before (by omega) (by omega)
      have range : InRange 64 ((foldFills arith sym earlier).netQty +
          fill.side.sign * fill.fillQty) := inRange_64 (by omega) (by omega)
      rw [foldFills_concat]
      constructor
      · rw [Position.netQty_applyFill, arith.int64_exact range, net]
        omega
      · have opposite : InRange 64 (-(foldFills arith sym earlier).netQty) :=
          inRange_64 (by omega) (by omega)
        exact Position.avgEntryPrice_applyFill_of_flat arith opposite range

/-- Nothing is held and no entry price is left. -/
def Closed (tracker : PositionTracker) : Prop :=
  ∀ position ∈ tracker.slots, position.netQty = 0 ∧ position.avgEntryPrice = 0

/-- Fills of positive size, with totals that the two counters of each symbol can hold. -/
structure Counted (events : List OrderEvent) : Prop where
  positive : ∀ event ∈ events, event.isFill = true → 0 < event.fillQty
  bought : ∀ sym, InRange 32 (totalBuyQty (fillsOf sym events))
  sold : ∀ sym, InRange 32 (totalSellQty (fillsOf sym events))

/-- So is every position of a projection. -/
theorem totals_of_mem_project {arith : Arithmetic} {events : List OrderEvent} {position : Position}
    (member : position ∈ (project arith events).slots)
    (positive : ∀ event ∈ events, event.isFill = true → 0 < event.fillQty)
    {sym : StringView} (named : fieldKey sym = position.key)
    (bought : totalBuyQty (fillsOf sym events) < 2 ^ 62)
    (sold : totalSellQty (fillsOf sym events) < 2 ^ 62) :
    position.netQty = totalBuyQty (fillsOf sym events) - totalSellQty (fillsOf sym events) ∧
      (position.netQty = 0 → position.avgEntryPrice = 0) := by
  have found : (project arith events).get sym = some position :=
    get_eq_some_iff.mpr ⟨member, named.symm⟩
  have totals := foldFills_of_totals arith sym
    (fun fill inFills => fillQty_pos_of_mem_fillsOf positive inFills) bought sold
  rwa [← eq_foldFills_of_get found] at totals

namespace Counted

variable {arith : Arithmetic} {events : List OrderEvent} (counted : Counted events)
  {position : Position} (member : position ∈ (project arith events).slots) {sym : StringView}
  (named : fieldKey sym = position.key)

include counted

theorem totals_range (sym : StringView) :
    0 ≤ totalBuyQty (fillsOf sym events) ∧ totalBuyQty (fillsOf sym events) < 2147483648 ∧
      0 ≤ totalSellQty (fillsOf sym events) ∧ totalSellQty (fillsOf sym events) < 2147483648 := by
  have own : ∀ fill ∈ fillsOf sym events, 0 < fill.fillQty :=
    fun fill inFills => fillQty_pos_of_mem_fillsOf counted.positive inFills
  exact ⟨totalBuyQty_nonneg own, (counted.bought sym).2, totalSellQty_nonneg own,
    (counted.sold sym).2⟩

include member named

theorem netQty_eq : position.netQty =
    totalBuyQty (fillsOf sym events) - totalSellQty (fillsOf sym events) := by
  obtain ⟨_, bought, _, sold⟩ := counted.totals_range sym
  exact (totals_of_mem_project member counted.positive named (by norm_num; omega)
    (by norm_num; omega)).1

omit named in
/-- Totals of 32 bits leave 32-bit positions. -/
theorem abs_netQty_lt : |position.netQty| < 2147483648 := by
  obtain ⟨_, _, _, _⟩ := counted.totals_range position.symbolView
  have net := counted.netQty_eq member (show fieldKey position.symbolView = position.key from rfl)
  rw [net]
  exact abs_lt.mpr ⟨by omega, by omega⟩

end Counted

end PositionTracker

end Hft
