import Hft.Gateway.CancelAll
import Hft.Gateway.Symbols
import Hft.Logical.RereadScan
import Hft.PositionTracker.Calls

/-!
# The killswitch while the books move

The killswitch may be called from any thread at any time, and its loops look at one slot
after the other while reports and orders go on being applied. `cancelAll_concurrent` and
`flatten_concurrent` say what a call has done when it is over, for every interleaving of its
looks with `apply_event` calls: nobody is asked twice, whoever is asked was there to be asked
at some moment of the call, and whoever was there throughout has been asked, also an order
that came in after the call began. `flatten` reads a position up to four times to make one
order, and a fill that turns the position round between two reads makes an order of no moment
(`flatten_concurrent_turned`).
-/

namespace Hft

open Logical Relation

namespace OrderManager

/-- What others do to the order table. -/
def Changes (arith : Arithmetic) (before after : OrderManager) : Prop :=
  ∃ event, after = before.applyEvent arith event

theorem Changes.grows {arith : Arithmetic} {before after : OrderManager}
    (changed : Changes arith before after) : before.keys <+: after.keys := by
  obtain ⟨event, rfl⟩ := changed
  rw [keys_applyEvent]
  split
  · exact List.prefix_append _ _
  · exact List.prefix_rfl

end OrderManager

theorem Position.not_isFlat_iff {position : Position} :
    (!position.isFlat) = true ↔ position.netQty ≠ 0 := by
  simp [isFlat]

namespace PositionTracker

/-- What others do to the position table. -/
def Changes (arith : Arithmetic) (before after : PositionTracker) : Prop :=
  ∃ call, after = before.perform arith call

theorem Changes.grows {arith : Arithmetic} {before after : PositionTracker}
    (changed : Changes arith before after) : before.keys <+: after.keys := by
  obtain ⟨call, rfl⟩ := changed
  cases call with
  | applyEvent event => exact keys_prefix_applyEvent arith before event
  | markToMarket sym mktPriceFp =>
      rw [perform, markToMarket, SlotTable.keys_update]

end PositionTracker

namespace Gateway.Killswitch

/-! ## Cancelling -/

/-- What `cancel_all` has attempted when it has looked at some slots. -/
def cancelled (idPrefix : List UInt8) (sessionFound : Nat → Bool) (looked : List Order) :
    List (Attempt OrderCancelRequest) :=
  looked.foldl (fun attempts order =>
    if !order.isOpen then attempts else cancelVisit idPrefix sessionFound attempts order) []

theorem cancelled_eq_mapIdx (idPrefix : List UInt8) (sessionFound : Nat → Bool)
    (looked : List Order) :
    cancelled idPrefix sessionFound looked =
      (looked.filter Order.isOpen).mapIdx fun index order =>
        cancelAttempt idPrefix sessionFound (index + 1) order := by
  have scan := foldl_numbering_filter (fun order : Order => !order.isOpen)
    (cancelAttempt idPrefix sessionFound) looked
  simp only [Bool.not_not] at scan
  exact scan

/-- On a table that nobody touches this is `cancel_all` as it stands. -/
theorem cancelled_of_still {orders : OrderManager} {scan : TableScan Order Order.key maxOrders}
    (run : ReflTransGen (TableScan.Step fun _ _ => False) (TableScan.begin orders) scan)
    (finished : scan.Over) (idPrefix : List UInt8) (sessionFound : Nat → Bool) :
    cancelled idPrefix sessionFound scan.looked = cancelAll orders idPrefix sessionFound := by
  rw [TableScan.looked_of_still run finished, cancelled_eq_mapIdx, cancelAll_eq_mapIdx]
  rfl

/-- Whether `flatten` reads the position once more: for `is_flat`, then for the side, for the sign
and for the amount. -/
def readsOn : List Position → Bool
  | [] => true
  | held :: more => !held.isFlat && decide (more.length < 3)

theorem readsOn_enough (reads : List Position) (many : 4 ≤ reads.length) :
    readsOn reads = false := by
  cases reads with
  | nil => cases many
  | cons held more =>
      rw [List.length_cons] at many
      simp only [readsOn, Bool.and_eq_false_iff, decide_eq_false_iff_not]
      exact .inr (by omega)

/-- What an order is made of. -/
structure Reads where
  sided : Position
  signed : Position
  amount : Position

/-- The last three reads of a visit that found a position. -/
def Reads.of? : List Position → Option Reads
  | [_, sided, signed, amount] => some ⟨sided, signed, amount⟩
  | _ => none

/-- The market order that `flatten` makes of its reads. -/
def Reads.order (arith : Arithmetic) (reads : Reads) (flatId : List UInt8) : NewOrderSingle :=
  let event := { OrderEvent.zero with
    type := .newOrder
    side := if 0 < reads.sided.netQty then .sell else .buy
    qty := arith.int32 (if 0 < reads.signed.netQty then reads.amount.netQty
      else arith.int64 (-reads.amount.netQty))
    price := 0
    symbol := reads.amount.symbol
    orderId := strncpy (Pointer.ofList flatId) 8 }
  { MessageTranslator.toNewOrderSingle event with ordType := '1', price := none }

def Reads.attempt (arith : Arithmetic) (idPrefix : List UInt8) (sessionFound : Nat → Bool)
    (count : Nat) (reads : Reads) : Attempt NewOrderSingle :=
  ⟨reads.order arith (idPrefix ++ toDecimal count), sessionFound count⟩

/-- What `flatten` has attempted after some visits. -/
def flattened (arith : Arithmetic) (idPrefix : List UInt8) (sessionFound : Nat → Bool)
    (visits : List (List Position)) : List (Attempt NewOrderSingle) :=
  (visits.filterMap Reads.of?).foldl (fun attempts reads =>
    attempts ++ [reads.attempt arith idPrefix sessionFound (attempts.length + 1)]) []

theorem flattened_eq_mapIdx (arith : Arithmetic) (idPrefix : List UInt8)
    (sessionFound : Nat → Bool) (visits : List (List Position)) :
    flattened arith idPrefix sessionFound visits =
      (visits.filterMap Reads.of?).mapIdx fun index reads =>
        reads.attempt arith idPrefix sessionFound (index + 1) :=
  foldl_numbering (Reads.attempt arith idPrefix sessionFound) (visits.filterMap Reads.of?)

/-- Reads that agree on the side make the order of the last one. -/
theorem Reads.order_eq (arith : Arithmetic) {reads : Reads}
    (sided : 0 < reads.sided.netQty ↔ 0 < reads.amount.netQty)
    (signed : 0 < reads.signed.netQty ↔ 0 < reads.amount.netQty) (flatId : List UInt8) :
    reads.order arith flatId = flattenOrder arith reads.amount flatId := by
  simp only [Reads.order, flattenOrder, sided, signed]

/-- A visit reads a flat position once, and any other four times. -/
theorem reads_cases {reads : List Position} (wanted : RereadScan.Wanted readsOn reads)
    (visiting : reads ≠ []) (enough : readsOn reads = false) :
    (∃ held, reads = [held] ∧ held.netQty = 0) ∨
      ∃ held sided signed amount, reads = [held, sided, signed, amount] ∧ held.netQty ≠ 0 := by
  obtain _ | ⟨held, _ | ⟨second, more⟩⟩ := reads
  · exact absurd rfl visiting
  · exact .inl ⟨held, rfl, by simpa [readsOn, Position.isFlat] using enough⟩
  · have first := wanted [held] second ⟨more, rfl⟩
    have notFlat : (!held.isFlat) = true := by simpa [readsOn] using first
    right
    obtain _ | ⟨signed, _ | ⟨amount, _ | ⟨fifth, rest⟩⟩⟩ := more
    · simp [readsOn, notFlat] at enough
    · simp [readsOn, notFlat] at enough
    · exact ⟨held, second, signed, amount, rfl, Position.not_isFlat_iff.mp notFlat⟩
    · have last := wanted [held, second, signed, amount] fifth ⟨rest, rfl⟩
      simp [readsOn] at last

/-- How often `flatten` reads a slot that nobody touches. -/
def stillReads (position : Position) : List Position :=
  if position.isFlat then [position] else [position, position, position, position]

/-- All reads of a visit find the slot there is. -/
theorem visits_of_still {scan : RereadScan Position Position.key maxSymbols}
    (sound : scan.Sound readsOn) (finished : scan.Over) (still : scan.tables = [scan.table]) :
    scan.visits = scan.table.slots.map stillReads := by
  apply List.ext_getElem
  · rw [sound.counted, List.length_map]
    exact le_antisymm sound.within finished.2
  · intro index below below'
    rw [List.length_map] at below'
    have found := List.getElem?_eq_getElem below
    obtain ⟨visited, visiting, enough⟩ := sound.visited index _ found
    have same : ∀ position ∈ scan.visits[index], position = scan.table.slots[index] := by
      intro position member
      have slot := sound.getElem?_of_still still found member
      rw [List.getElem?_eq_getElem below'] at slot
      exact (Option.some.inj slot).symm
    rw [List.getElem_map, stillReads]
    obtain ⟨held, reads, flat⟩ | ⟨held, sided, signed, amount, reads, notFlat⟩ :=
      reads_cases visited.wanted visiting enough
    · rw [reads, List.forall_mem_singleton] at same
      rw [reads, ← same, if_pos (by simpa [Position.isFlat] using flat)]
    · rw [reads] at same
      simp only [List.forall_mem_cons, List.not_mem_nil, false_implies, implies_true,
        and_true] at same
      obtain ⟨rfl, rfl, rfl, rfl⟩ := same
      rw [reads, if_neg (by simpa [Position.isFlat] using notFlat)]

/-- They make an order of every position that is not flat. -/
theorem filterMap_stillReads (positions : List Position) :
    (positions.map stillReads).filterMap Reads.of? =
      (positions.filter fun position => !position.isFlat).map fun position =>
        ⟨position, position, position⟩ := by
  induction positions with
  | nil => rfl
  | cons position rest ih =>
      cases flat : position.isFlat with
      | true =>
          rw [List.map_cons, stillReads, if_pos flat, List.filterMap_cons_none rfl, ih,
            List.filter_cons_of_neg (by simp [flat])]
      | false =>
          have read : Reads.of? [position, position, position, position] =
              some ⟨position, position, position⟩ := rfl
          rw [List.map_cons, stillReads, if_neg (by simp [flat]), List.filterMap_cons_some read,
            ih, List.filter_cons_of_pos (by simp [flat]), List.map_cons]

/-- On a table that nobody touches this is `flatten` as it stands. -/
theorem flattened_of_still (arith : Arithmetic) {tracker : PositionTracker}
    {scan : RereadScan Position Position.key maxSymbols}
    (run : ReflTransGen (RereadScan.Step (fun _ _ => False) readsOn) (RereadScan.begin tracker)
      scan)
    (finished : scan.Over) (idPrefix : List UInt8) (sessionFound : Nat → Bool) :
    flattened arith idPrefix sessionFound scan.visits =
      flatten arith tracker idPrefix sessionFound := by
  have sound := RereadScan.Sound.of_run (fun same => same.elim) run
  obtain ⟨rfl, still⟩ := RereadScan.tables_of_still run
  rw [flattened_eq_mapIdx, visits_of_still sound finished still, filterMap_stillReads,
    flatten_eq_mapIdx]
  apply List.ext_getElem
  · simp
  · intro index _ _
    simp only [List.getElem_mapIdx, List.getElem_map]
    rfl

/-- What a `flatten` call has done by its end, given the tables there were meanwhile. An order is
made of several reads, and is of one moment if the position stayed on one side. -/
structure ClosesMeanwhile (arith : Arithmetic) (tables : List PositionTracker)
    (last : PositionTracker) (attempts : List (Attempt NewOrderSingle)) : Prop where
  once : (attempts.map fun attempt => attempt.message.symbol).Nodup
  fromReads : ∀ attempt ∈ attempts, ∃ (held : Position) (reads : Reads) (flatId : List UInt8),
    held.netQty ≠ 0 ∧ attempt.message = reads.order arith flatId ∧
    ∀ position ∈ [held, reads.sided, reads.signed, reads.amount],
      position.symbol.string = attempt.message.symbol ∧ ∃ table ∈ tables, position ∈ table.slots
  oneSided : ∀ attempt ∈ attempts, ∀ side : Side,
    (∀ table ∈ tables, ∀ twin ∈ table.slots, twin.symbol.string = attempt.message.symbol →
      0 < side.sign * twin.netQty) →
    ∃ table ∈ tables, ∃ position ∈ table.slots, ∃ flatId,
      attempt.message = flattenOrder arith position flatId
  stayedHeld : ∀ position ∈ last.slots,
    (∀ table ∈ tables, ∀ twin ∈ table.slots, twin.key = position.key → twin.netQty ≠ 0) →
      ∃ attempt ∈ attempts, attempt.message.symbol = position.symbol.string

/-- Reads on one side of flat make the order of the last one. -/
theorem Reads.order_eq_of_side (arith : Arithmetic) {reads : Reads} {side : Side}
    (sided : 0 < side.sign * reads.sided.netQty) (signed : 0 < side.sign * reads.signed.netQty)
    (amount : 0 < side.sign * reads.amount.netQty) (flatId : List UInt8) :
    reads.order arith flatId = flattenOrder arith reads.amount flatId := by
  unfold Side.sign at sided signed amount
  by_cases buys : side = .buy
  · rw [if_pos buys, one_mul] at sided signed amount
    exact reads.order_eq arith (iff_of_true sided amount) (iff_of_true signed amount) flatId
  · rw [if_neg buys] at sided signed amount
    exact Reads.order_eq arith (iff_of_false (by omega) (by omega))
      (iff_of_false (by omega) (by omega)) flatId

section Interleaved

variable {arith : Arithmetic} {scan : RereadScan Position Position.key maxSymbols}

/-- Every order is made of reads of one slot, each at a moment of the call. -/
theorem reads_of_mem_flattened (sound : scan.Sound readsOn) {idPrefix : List UInt8}
    {sessionFound : Nat → Bool} {attempt : Attempt NewOrderSingle}
    (member : attempt ∈ flattened arith idPrefix sessionFound scan.visits) :
    ∃ (held : Position) (reads : Reads) (flatId : List UInt8),
      held.netQty ≠ 0 ∧ attempt.message = reads.order arith flatId ∧
      ∀ position ∈ [held, reads.sided, reads.signed, reads.amount],
        position.symbol.string = attempt.message.symbol ∧
          ∃ table ∈ scan.tables, position ∈ table.slots := by
  rw [flattened_eq_mapIdx] at member
  obtain ⟨number, below, rfl⟩ := List.mem_mapIdx.mp member
  obtain ⟨visit, inVisits, picked⟩ := List.mem_filterMap.mp (List.getElem_mem below)
  obtain ⟨index, found⟩ := List.mem_iff_getElem?.mp inVisits
  obtain ⟨visited, visiting, enough⟩ := sound.visited index visit found
  obtain ⟨held, rfl, _⟩ | ⟨held, sided, signed, amount, rfl, notFlat⟩ :=
    reads_cases visited.wanted visiting enough
  · cases picked
  · have reads := Option.some.inj picked
    refine ⟨held, _, _, notFlat, rfl, ?_⟩
    rw [← reads]
    intro position inReads
    refine ⟨?_, visited.witnessed position inReads⟩
    have name := visited.named position inReads
    rw [visited.named amount (by simp)] at name
    exact (Option.some.inj name).symm

/-- No two orders are on one symbol. -/
theorem nodup_symbol_flattened (sound : scan.Sound readsOn) (idPrefix : List UInt8)
    (sessionFound : Nat → Bool) :
    ((flattened arith idPrefix sessionFound scan.visits).map fun attempt =>
      attempt.message.symbol).Nodup := by
  have picks : ∀ (visit : List Position) position,
      (Reads.of? visit).map Reads.amount = some position → position ∈ visit := by
    intro visit position picked
    obtain ⟨reads, found, rfl⟩ := Option.map_eq_some_iff.mp picked
    unfold Reads.of? at found
    split at found
    · cases found
      simp
    · cases found
  have named := sound.nodup_picked picks
  rw [← List.map_filterMap, List.map_map] at named
  rw [flattened_eq_mapIdx]
  have view := @map_mapIdx_eq_map Reads (Attempt NewOrderSingle) (List UInt8)
    (fun index reads => reads.attempt arith idPrefix sessionFound (index + 1))
    (fun attempt => attempt.message.symbol) (Position.key ∘ Reads.amount) (fun _ _ => rfl)
    (scan.visits.filterMap Reads.of?)
  rw [view]
  exact named

/-- A symbol that no visit can have found flat has an order. -/
theorem mem_symbol_flattened (sound : scan.Sound readsOn) (finished : scan.Over)
    (idPrefix : List UInt8) (sessionFound : Nat → Bool) {position : Position}
    (member : position ∈ scan.table.slots)
    (stayed : ∀ table ∈ scan.tables, ∀ twin ∈ table.slots, twin.key = position.key →
      twin.netQty ≠ 0) :
    ∃ attempt ∈ flattened arith idPrefix sessionFound scan.visits,
      attempt.message.symbol = position.symbol.string := by
  obtain ⟨visit, inVisits, visiting, sameKey⟩ := sound.exists_visit finished member
  obtain ⟨index, found⟩ := List.mem_iff_getElem?.mp inVisits
  obtain ⟨visited, _, enough⟩ := sound.visited index visit found
  obtain ⟨held, rfl, flat⟩ | ⟨held, sided, signed, amount, rfl, _⟩ :=
    reads_cases visited.wanted visiting enough
  · obtain ⟨table, inTables, inSlots⟩ := visited.witnessed held List.mem_cons_self
    exact absurd flat (stayed table inTables held inSlots (sameKey held List.mem_cons_self))
  · have picked : (⟨sided, signed, amount⟩ : Reads) ∈ scan.visits.filterMap Reads.of? :=
      List.mem_filterMap.mpr ⟨_, inVisits, rfl⟩
    obtain ⟨number, below, same⟩ := List.getElem_of_mem picked
    rw [flattened_eq_mapIdx]
    refine ⟨_, List.mem_mapIdx.mpr ⟨number, below, rfl⟩, ?_⟩
    rw [same]
    exact sameKey amount (by simp)

end Interleaved

/-- Every interleaving of the reads of a `flatten` call with fills and marks applied by others. -/
theorem flatten_concurrent {arith : Arithmetic} {tracker : PositionTracker}
    {scan : RereadScan Position Position.key maxSymbols}
    (run : ReflTransGen (RereadScan.Step (PositionTracker.Changes arith) readsOn)
      (RereadScan.begin tracker) scan)
    (finished : scan.Over) (idPrefix : List UInt8) (sessionFound : Nat → Bool) :
    ClosesMeanwhile arith scan.tables scan.table
      (flattened arith idPrefix sessionFound scan.visits) := by
  have sound := RereadScan.Sound.of_run PositionTracker.Changes.grows run
  refine ⟨nodup_symbol_flattened sound idPrefix sessionFound,
    fun attempt member => reads_of_mem_flattened sound member, ?_,
    fun position => mem_symbol_flattened sound finished idPrefix sessionFound⟩
  intro attempt member side stayed
  obtain ⟨held, reads, flatId, _, order, known⟩ := reads_of_mem_flattened sound member
  have onSide : ∀ position ∈ [held, reads.sided, reads.signed, reads.amount],
      0 < side.sign * position.netQty := by
    intro position inReads
    obtain ⟨named, table, inTables, inSlots⟩ := known position inReads
    exact stayed table inTables position inSlots named
  obtain ⟨_, table, inTables, inSlots⟩ := known reads.amount (by simp)
  refine ⟨table, inTables, reads.amount, inSlots, flatId, order.trans ?_⟩
  exact Reads.order_eq_of_side arith (onSide _ (by simp)) (onSide _ (by simp))
    (onSide _ (by simp)) flatId

/-- A fill of MSFT. -/
def filled (side : Side) (qty : Int) : OrderEvent :=
  makeFill (StringView.ofList (ascii "MSFT")) side qty 5 (StringView.ofList (ascii "O1")) false

/-- Ten MSFT are bought while the call is under way, and they are sold. -/
theorem flatten_concurrent_late :
    ∃ scan, ReflTransGen (RereadScan.Step (PositionTracker.Changes .exact) readsOn)
        (RereadScan.begin PositionTracker.initial) scan ∧
      ∃ attempt ∈ flattened .exact (ascii "FL") (fun _ => true) scan.visits,
        attempt.message.symbol = ascii "MSFT" := by
  let held := PositionTracker.initial.applyEvent .exact (filled .buy 10)
  have changed : RereadScan.Step (PositionTracker.Changes .exact) readsOn
      (RereadScan.begin PositionTracker.initial)
      ⟨held, 0, [], [], [PositionTracker.initial, held]⟩ :=
    .change ⟨.applyEvent (filled .buy 10), rfl⟩
  obtain ⟨scan, visits, finished, sameTable, sameTables⟩ := RereadScan.exists_over
    (PositionTracker.Changes .exact) readsOn_enough rfl
    ⟨held, 0, [], [], [PositionTracker.initial, held]⟩ rfl
  refine ⟨scan, .head changed visits, ?_⟩
  have covers := flatten_concurrent (.head changed visits) finished (ascii "FL") fun _ => true
  rw [sameTable, sameTables] at covers
  have late : ∃ position ∈ held.slots, position.symbol.string = ascii "MSFT" ∧
      ∀ table ∈ [PositionTracker.initial, held], ∀ twin ∈ table.slots,
        twin.key = position.key → twin.netQty ≠ 0 := by
    decide +kernel
  obtain ⟨position, member, named, stayed⟩ := late
  obtain ⟨attempt, made, asked⟩ := covers.stayedHeld position member stayed
  exact ⟨attempt, made, asked.trans named⟩

/-- Eight are sold out of five after the side was read and before the amount was: three more are
sold where three are short. -/
theorem flatten_concurrent_turned :
    let held := PositionTracker.initial.applyEvent .exact (filled .buy 5)
    ∃ scan, ReflTransGen (RereadScan.Step (PositionTracker.Changes .exact) readsOn)
        (RereadScan.begin held) scan ∧ scan.Over ∧
      (scan.table.slots.map Position.netQty = [-3]) ∧
      (flattened .exact (ascii "FL") (fun _ => true) scan.visits).map
          (fun attempt => (attempt.message.side, attempt.message.orderQty)) =
        [(sideField .sell, 3)] := by
  intro held
  have first : RereadScan.Step (PositionTracker.Changes .exact) readsOn (RereadScan.begin held)
      _ := .read rfl rfl
  have sided := (ReflTransGen.single first).tail (.read (by decide +kernel) rfl)
  have turned := sided.tail (.change ⟨.applyEvent (filled .sell 8), rfl⟩)
  have signed := turned.tail (.read (by decide +kernel) rfl)
  have amount := signed.tail (.read (by decide +kernel) rfl)
  have left := amount.tail (.leave (List.cons_ne_nil _ _) (by decide +kernel))
  exact ⟨_, left, ⟨rfl, by decide +kernel⟩, by decide +kernel, by decide +kernel⟩

end Gateway.Killswitch

end Hft
