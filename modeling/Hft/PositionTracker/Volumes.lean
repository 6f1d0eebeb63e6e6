import Hft.Logical.Wrapping
import Hft.PositionTracker.Totals
import Hft.SlotOrder

/-!
# Volumes at the width of their fields

A slot adds up what was bought and what was sold over the life of the log, in 32 bits each,
while the net quantity has 64. No log is long enough to overflow the net quantity, but two
fills are enough to overflow a total. With two's complement integers the totals still
reconcile with the net quantity while neither passes 31 bits, and after that only where
both have wrapped equally often.
-/

namespace Hft

open Logical

/-- The totals of a slot are quantities, and their difference is the net quantity. -/
structure Position.Reconciles (position : Position) : Prop where
  net : position.totalBuyQty - position.totalSellQty = position.netQty
  bought : 0 ≤ position.totalBuyQty
  sold : 0 ≤ position.totalSellQty

namespace PositionTracker

/-- Every slot's totals reconcile. -/
def VolumesReconcile (tracker : PositionTracker) : Prop :=
  ∀ position ∈ tracker.slots, position.Reconciles

/-- Totals that two 32-bit counters show as quantities with the right difference. -/
def ShowInCounters (fills : List OrderEvent) : Prop :=
  totalBuyQty fills % 2 ^ 32 < 2 ^ 31 ∧ totalSellQty fills % 2 ^ 32 < 2 ^ 31 ∧
    totalBuyQty fills / 2 ^ 32 = totalSellQty fills / 2 ^ 32

/-- A sequence of events with 32-bit quantities, positive for fills, that fits into a log. -/
structure Loggable (events : List OrderEvent) : Prop where
  few : events.length ≤ maxEvents
  fields : ∀ event ∈ events, InRange 32 event.fillQty
  positive : ∀ event ∈ events, event.isFill = true → 0 < event.fillQty

/-- A counter that adds up the quantities of some of the fills holds their wrapped sum. -/
theorem counter_foldFills {counter : Position → Int} {counts : OrderEvent → Prop}
    [DecidablePred counts] {sym : StringView}
    (start : counter (Position.zeroed (strncpy sym.data 8)) = 0)
    (step : ∀ position fill, counter (position.applyFill .wrapping fill) =
      if counts fill then Arithmetic.wrapping.int32 (counter position + fill.fillQty)
      else counter position)
    (fills : List OrderEvent) :
    counter (foldFills .wrapping sym fills) =
      Arithmetic.wrap 32 ((fills.filter fun fill => counts fill).map OrderEvent.fillQty).sum := by
  induction fills using List.reverseRecOn with
  | nil => exact start
  | append_singleton earlier fill ih =>
      rw [foldFills_concat, step, ih, List.filter_append, List.map_append, List.sum_append]
      by_cases counted : counts fill
      · have last : (([fill].filter fun fill => counts fill).map OrderEvent.fillQty).sum =
            fill.fillQty := by simp [counted]
        rw [if_pos counted, last]
        exact Arithmetic.wrap_wrap_add (by decide) _ _
      · have last : (([fill].filter fun fill => counts fill).map OrderEvent.fillQty).sum = 0 := by
          simp [counted]
        rw [if_neg counted, last, add_zero]

theorem totalBuyQty_foldFills (sym : StringView) (fills : List OrderEvent) :
    (foldFills .wrapping sym fills).totalBuyQty = Arithmetic.wrap 32 (totalBuyQty fills) :=
  counter_foldFills rfl (fun position fill => position.totalBuyQty_applyFill .wrapping fill) fills

theorem totalSellQty_foldFills (sym : StringView) (fills : List OrderEvent) :
    (foldFills .wrapping sym fills).totalSellQty = Arithmetic.wrap 32 (totalSellQty fills) := by
  refine counter_foldFills rfl (fun position fill => ?_) fills
  rw [Position.totalSellQty_applyFill, ite_not]

namespace Loggable

variable {events : List OrderEvent} (loggable : Loggable events)
include loggable

theorem netQty_foldFills (sym : StringView) :
    (foldFills .wrapping sym (fillsOf sym events)).netQty =
      totalBuyQty (fillsOf sym events) - totalSellQty (fillsOf sym events) := by
  have whole := @signedSum_eq_of_log .wrapping ⟨events, loggable.few⟩ loggable.fields sym
  rw [PositionTracker.netQty_foldFills, whole, signedTotal_eq]

theorem totals_nonneg (sym : StringView) :
    0 ≤ totalBuyQty (fillsOf sym events) ∧ 0 ≤ totalSellQty (fillsOf sym events) := by
  have own : ∀ fill ∈ fillsOf sym events, 0 < fill.fillQty :=
    fun fill inFills => fillQty_pos_of_mem_fillsOf loggable.positive inFills
  exact ⟨totalBuyQty_nonneg own, totalSellQty_nonneg own⟩

/-- One slot's totals reconcile exactly while its counters show them. -/
theorem reconciles_iff {sym : StringView} {position : Position}
    (found : (project .wrapping events).get sym = some position) :
    position.Reconciles ↔ ShowInCounters (fillsOf sym events) := by
  obtain ⟨bought, sold⟩ := loggable.totals_nonneg sym
  have net := loggable.netQty_foldFills sym
  have buys := totalBuyQty_foldFills sym (fillsOf sym events)
  have sells := totalSellQty_foldFills sym (fillsOf sym events)
  rw [← eq_foldFills_of_get found] at net buys sells
  simp only [Arithmetic.wrap] at buys sells
  norm_num at buys sells
  unfold ShowInCounters
  norm_num
  constructor
  · rintro ⟨same, bought', sold'⟩
    omega
  · rintro ⟨low, low', turns⟩
    constructor <;> omega

/-- The symbols that own slots are the ones to look at. -/
theorem volumesReconcile_iff : VolumesReconcile (project .wrapping events) ↔
    ∀ sym, fieldKey sym ∈ firstComers maxSymbols (fillSymbols events) →
      ShowInCounters (fillsOf sym events) := by
  constructor
  · intro reconcile sym booked
    rw [← keys_project .wrapping] at booked
    obtain ⟨position, member, named⟩ := List.mem_map.mp booked
    have found : (project .wrapping events).get sym = some position :=
      get_eq_some_iff.mpr ⟨member, named⟩
    exact (loggable.reconciles_iff found).mp (reconcile position member)
  · intro shown position member
    have found : (project .wrapping events).get position.symbolView = some position :=
      get_eq_some_iff.mpr ⟨member, rfl⟩
    have booked : position.key ∈ (project .wrapping events).keys := List.mem_map_of_mem member
    rw [keys_project] at booked
    exact (loggable.reconciles_iff found).mpr (shown position.symbolView booked)

theorem of_prefix {earlier : List OrderEvent} (within : earlier <+: events) :
    Loggable earlier where
  few := within.length_le.trans loggable.few
  fields event member := loggable.fields event (within.subset member)
  positive event member := loggable.positive event (within.subset member)

/-- The totals of a symbol only grow. -/
theorem totals_le {earlier : List OrderEvent} (within : earlier <+: events) (sym : StringView) :
    totalBuyQty (fillsOf sym earlier) ≤ totalBuyQty (fillsOf sym events) ∧
      totalSellQty (fillsOf sym earlier) ≤ totalSellQty (fillsOf sym events) := by
  obtain ⟨later, rfl⟩ := within
  have rest : ∀ fill ∈ fillsOf sym later, 0 < fill.fillQty := fun fill inFills =>
    fillQty_pos_of_mem_fillsOf
      (fun event member => loggable.positive event (List.mem_append_right _ member)) inFills
  have bought := totalBuyQty_nonneg rest
  have sold := totalSellQty_nonneg rest
  rw [fillsOf_append, totalBuyQty_append, totalSellQty_append]
  exact ⟨by omega, by omega⟩

/-- No single fill takes a total past the next wrap. -/
theorem totals_concat_lt {earlier : List OrderEvent} {event : OrderEvent}
    (within : earlier ++ [event] <+: events) (sym : StringView) :
    totalBuyQty (fillsOf sym (earlier ++ [event])) <
        totalBuyQty (fillsOf sym earlier) + 2 ^ 31 ∧
      totalSellQty (fillsOf sym (earlier ++ [event])) <
        totalSellQty (fillsOf sym earlier) + 2 ^ 31 := by
  have small := (loggable.fields event (within.subset (by simp))).2
  norm_num at small
  rw [fillsOf_append, totalBuyQty_append, totalSellQty_append]
  by_cases own : event.isFill = true ∧ event.symbol.string = fieldKey sym
  · have one : fillsOf sym [event] = [event] := by simp [fillsOf, own]
    by_cases buys : event.side = .buy
    · simpa [one, totalBuyQty, totalSellQty, buys] using small
    · simpa [one, totalBuyQty, totalSellQty, buys] using small
  · have none : fillsOf sym [event] = [] := by
      simpa [fillsOf] using own
    simp [none, totalBuyQty, totalSellQty]

/-- The totals reconcile in every state of a run exactly while no symbol's volume, bought or
sold, passes 31 bits. -/
theorem always_reconcile_iff :
    (∀ earlier, earlier <+: events → VolumesReconcile (project .wrapping earlier)) ↔
      ∀ sym, fieldKey sym ∈ firstComers maxSymbols (fillSymbols events) →
        totalBuyQty (fillsOf sym events) < 2 ^ 31 ∧
          totalSellQty (fillsOf sym events) < 2 ^ 31 := by
  constructor
  · intro always sym booked
    have small : ∀ earlier, earlier <+: events →
        totalBuyQty (fillsOf sym earlier) < 2 ^ 31 ∧
          totalSellQty (fillsOf sym earlier) < 2 ^ 31 := by
      intro earlier
      induction earlier using List.reverseRecOn with
      | nil =>
          have none : (0 : Int) < 2 ^ 31 := by decide
          exact fun _ => ⟨none, none⟩
      | append_singleton earlier event ih =>
          intro within
          by_cases mentioned : fieldKey sym ∈ fillSymbols (earlier ++ [event])
          · obtain ⟨bought, sold⟩ := ih ((List.prefix_append _ _).trans within)
            obtain ⟨buys, sells⟩ := loggable.totals_concat_lt within sym
            obtain ⟨nonneg, nonneg'⟩ := (loggable.of_prefix within).totals_nonneg sym
            obtain ⟨later, whole⟩ := within
            rw [← whole, fillSymbols_append] at booked
            obtain ⟨low, low', _⟩ := (loggable.of_prefix ⟨later, whole⟩).volumesReconcile_iff.mp
              (always _ ⟨later, whole⟩) sym (mem_firstComers_of_append booked mentioned)
            omega
          · have none : fillsOf sym (earlier ++ [event]) = [] := by
              rw [fillsOf, List.filter_eq_nil_iff]
              intro other member own
              obtain ⟨isFill, named⟩ := of_decide_eq_true own
              apply mentioned
              rw [← named]
              exact List.mem_map_of_mem (List.mem_filter.mpr ⟨member, isFill⟩)
            rw [none]
            exact ⟨by decide, by decide⟩
    exact small events List.prefix_rfl
  · intro small earlier within
    refine (loggable.of_prefix within).volumesReconcile_iff.mpr fun sym booked => ?_
    obtain ⟨nonneg, nonneg'⟩ := (loggable.of_prefix within).totals_nonneg sym
    obtain ⟨buys, sells⟩ := loggable.totals_le within sym
    obtain ⟨later, rfl⟩ := within
    rw [fillSymbols_append] at small
    obtain ⟨bought, sold⟩ := small sym
      ((firstComers_prefix_append maxSymbols _ _).subset booked)
    unfold ShowInCounters
    omega

end Loggable

/-- Over any log of positive 32-bit fills, the totals reconcile at the end exactly where the
counters of each symbol with a slot show them, and all along exactly while no volume passes
31 bits. -/
theorem volumes_reconcile_iff {events : List OrderEvent} (loggable : Loggable events) :
    (VolumesReconcile (project .wrapping events) ↔
      ∀ sym, fieldKey sym ∈ firstComers maxSymbols (fillSymbols events) →
        ShowInCounters (fillsOf sym events)) ∧
    ((∀ earlier, earlier <+: events → VolumesReconcile (project .wrapping earlier)) ↔
      ∀ sym, fieldKey sym ∈ firstComers maxSymbols (fillSymbols events) →
        totalBuyQty (fillsOf sym events) < 2 ^ 31 ∧
          totalSellQty (fillsOf sym events) < 2 ^ 31) :=
  ⟨loggable.volumesReconcile_iff, loggable.always_reconcile_iff⟩

/-- Almost as many shares bought as a total can count, and some more. -/
def boughtTwice (more : Int) : List OrderEvent :=
  let fill qty := makeFill (StringView.ofList (ascii "AAPL")) .buy qty 1
    (StringView.ofList (ascii "O1")) false
  [fill (2 ^ 31 - 11), fill more]

/-- Ten more are counted. -/
theorem volumes_reconcile_ten : VolumesReconcile (project .wrapping (boughtTwice 10)) := by
  have loggable : Loggable (boughtTwice 10) := ⟨by decide, by decide, by decide⟩
  refine (volumes_reconcile_iff loggable).1.mpr fun sym booked => ?_
  have all : firstComers maxSymbols (fillSymbols (boughtTwice 10)) = [ascii "AAPL"] := by
    decide +kernel
  rw [all, List.mem_singleton] at booked
  unfold ShowInCounters fillsOf
  rw [booked]
  decide +kernel

/-- Eleven more turn the total negative. -/
theorem volumes_wrap :
    ¬∀ events, Loggable events → VolumesReconcile (project .wrapping events) := by
  intro always
  have reconcile := always (boughtTwice 11) ⟨by decide, by decide, by decide⟩
  have wrapped : ∃ position ∈ (project .wrapping (boughtTwice 11)).slots,
      position.totalBuyQty < 0 := by decide +kernel
  obtain ⟨position, member, negative⟩ := wrapped
  exact absurd (reconcile position member).bought (not_le.mpr negative)

end PositionTracker

end Hft
