import Hft.Gateway.Killswitch
import Hft.Gateway.RoundTrip
import Hft.PositionTracker.Totals

/-!
# What one `flatten` closes

One market order per position that is not flat, against it and for its size, whatever
becomes of each send. Once the orders are filled, however they are split and in whatever
order the reports come in, the fills of a symbol add up to what was held with the opposite
sign, so the totals of the whole sequence meet and every position is flat.
-/

namespace Hft.Gateway

open Logical

/-- What `onMessage` makes of the tracker. -/
def takeReport (arith : Arithmetic) (tracker : PositionTracker) (report : ExecutionReport) :
    PositionTracker :=
  match bookedEvent arith report with
  | some event => tracker.applyEvent arith event
  | none => tracker

theorem FIXGateway.tracker_onMessage {arith : Arithmetic} {before after : FIXGateway}
    {report : ExecutionReport} {now : Nat}
    (returned : before.onMessage arith report now = .returned after) :
    after.tracker = takeReport arith before.tracker report := by
  unfold takeReport bookedEvent
  obtain ⟨translated, rfl⟩ | ⟨event, translated, booked⟩ := onMessage_eq_returned_iff.mp returned
  · rw [translated]
  · obtain ⟨log, _, _, rfl⟩ := book_eq_ok_iff.mp booked
    rw [translated]

/-- Part of an order's quantity and the report that it has been filled. -/
structure Portion where
  order : NewOrderSingle
  shares : Int
  report : ExecutionReport
deriving DecidableEq

namespace Portion

/-- The report is a fill of some shares of the order at some price. -/
structure Reported (portion : Portion) : Prop where
  execType : portion.report.execType = some '1' ∨ portion.report.execType = some '2'
  echo : FIXGateway.Echoes portion.order portion.report
  lastShares : portion.report.lastShares = some (portion.shares : ℚ)
  lastPx : ∃ price, portion.report.lastPx = some price
  positive : 0 < portion.shares

/-- The fill that is booked for a portion. -/
def fill (arith : Arithmetic) (portion : Portion) : OrderEvent :=
  (bookedEvent arith portion.report).getD OrderEvent.zero

end Portion

/-- Portions of the attempted orders that add up to the whole of each. -/
structure FilledInFull (attempts : List (Attempt NewOrderSingle)) (portions : List Portion) :
    Prop where
  reported : ∀ portion ∈ portions, portion.Reported
  attempted : ∀ portion ∈ portions, portion.order ∈ attempts.map Attempt.message
  complete : ∀ message ∈ attempts.map Attempt.message,
    ((((portions.filter fun portion => portion.order = message).map Portion.shares).sum : Int) :
      ℚ) = message.orderQty

namespace Killswitch

/-- What `flatten` is for: one market order without a price against every position that is
not flat and none for any other, and one outcome of `sendToTarget` for each. -/
structure OneOrderEach (tracker : PositionTracker) (sessionFound : Nat → Bool)
    (attempts : List (Attempt NewOrderSingle)) : Prop where
  once : ∀ position ∈ tracker.slots,
    (attempts.map fun attempt => attempt.message.symbol).count position.symbol.string =
      if position.isFlat then 0 else 1
  sent : (attempts.map fun attempt => (attempt.message.symbol, attempt.message.side,
      attempt.message.orderQty, attempt.message.ordType, attempt.message.price)) =
    (tracker.slots.filter fun position => !position.isFlat).map fun position =>
      (position.symbol.string, if 0 < position.netQty then '2' else '1',
        ((|position.netQty| : Int) : ℚ), '1', none)
  outcomes : attempts.map Attempt.delivered =
    (List.range attempts.length).map fun index => sessionFound (index + 1)

/-- A net quantity of 32 bits survives its narrowing. -/
theorem orderQty_flattenOrder (arith : Arithmetic) {position : Position}
    (small : |position.netQty| < 2147483648) (flatId : List UInt8) :
    (flattenOrder arith position flatId).orderQty = ((|position.netQty| : Int) : ℚ) := by
  obtain ⟨low, high⟩ := abs_lt.mp small
  change ((arith.int32 (if 0 < position.netQty then position.netQty
    else arith.int64 (-position.netQty)) : Int) : ℚ) = _
  congr 1
  split
  · rename_i long
    rw [arith.int32_exact (inRange_32 (by omega) (by omega)), abs_of_pos long]
  · rename_i short
    rw [arith.int64_exact (inRange_64 (by omega) (by omega)),
      arith.int32_exact (inRange_32 (by omega) (by omega)), abs_of_nonpos (not_lt.mp short)]

theorem side_flattenOrder (arith : Arithmetic) (position : Position) (flatId : List UInt8) :
    (flattenOrder arith position flatId).side = if 0 < position.netQty then '2' else '1' := by
  change sideField (if 0 < position.netQty then Side.sell else Side.buy) = _
  split <;> rfl

/-- The orders name the positions that are not flat, in scan order. -/
theorem map_symbol_flatten (arith : Arithmetic) (tracker : PositionTracker)
    (idPrefix : List UInt8) (sessionFound : Nat → Bool) :
    (flatten arith tracker idPrefix sessionFound).map (fun attempt => attempt.message.symbol) =
      (tracker.slots.filter fun position => !position.isFlat).map Position.key := by
  rw [flatten_eq_mapIdx]
  refine map_mapIdx_eq_map ?_ _
  intro index position
  rfl

/-- No two orders of one call name the same symbol. -/
theorem nodup_symbol_flatten (arith : Arithmetic) (tracker : PositionTracker)
    (idPrefix : List UInt8) (sessionFound : Nat → Bool) :
    ((flatten arith tracker idPrefix sessionFound).map
      fun attempt => attempt.message.symbol).Nodup := by
  rw [map_symbol_flatten]
  exact tracker.distinct.sublist (List.filter_sublist.map _)

/-- An attempt is the order against some position. -/
theorem exists_of_mem_flatten {arith : Arithmetic} {tracker : PositionTracker}
    {idPrefix : List UInt8} {sessionFound : Nat → Bool} {message : NewOrderSingle}
    (member : message ∈ (flatten arith tracker idPrefix sessionFound).map Attempt.message) :
    ∃ position ∈ tracker.slots, position.isFlat = false ∧
      ∃ flatId, message = flattenOrder arith position flatId := by
  rw [flatten_eq_mapIdx, map_mapIdx] at member
  obtain ⟨index, below, rfl⟩ := List.mem_mapIdx.mp member
  obtain ⟨inTable, open_⟩ := List.mem_filter.mp (List.getElem_mem below)
  exact ⟨_, inTable, by simpa using open_, _, rfl⟩

/-- Every position that is not flat has its order among the attempts. -/
theorem exists_flattenOrder_mem (arith : Arithmetic) {tracker : PositionTracker}
    (idPrefix : List UInt8) (sessionFound : Nat → Bool) {position : Position}
    (member : position ∈ tracker.slots) (held : position.isFlat = false) :
    ∃ flatId, flattenOrder arith position flatId ∈
      (flatten arith tracker idPrefix sessionFound).map Attempt.message := by
  have inScan : position ∈ tracker.slots.filter fun position => !position.isFlat :=
    List.mem_filter.mpr ⟨member, by simp [held]⟩
  obtain ⟨index, below, rfl⟩ := List.getElem_of_mem inScan
  refine ⟨idPrefix ++ toDecimal (index + 1), ?_⟩
  rw [flatten_eq_mapIdx, map_mapIdx]
  exact List.mem_mapIdx.mpr ⟨index, below, rfl⟩

/-- One call orders what it is for, as long as the quantities fit the field. -/
theorem oneOrderEach_flatten (arith : Arithmetic) {tracker : PositionTracker}
    (small : ∀ position ∈ tracker.slots, |position.netQty| < 2147483648)
    (idPrefix : List UInt8) (sessionFound : Nat → Bool) :
    OneOrderEach tracker sessionFound (flatten arith tracker idPrefix sessionFound) where
  once := by
    intro position member
    rw [(nodup_symbol_flatten arith tracker idPrefix sessionFound).count, map_symbol_flatten]
    have named : position.symbol.string ∈
        (tracker.slots.filter fun position => !position.isFlat).map Position.key ↔
        position.isFlat = false := by
      rw [List.mem_map]
      constructor
      · rintro ⟨twin, inScan, same⟩
        obtain ⟨inTable, held⟩ := List.mem_filter.mp inScan
        rw [← tracker.eq_of_key_eq inTable member same]
        simpa using held
      · intro held
        exact ⟨position, List.mem_filter.mpr ⟨member, by simp [held]⟩, rfl⟩
    simp only [named]
    cases position.isFlat <;> rfl
  sent := by
    have figures : ((flatten arith tracker idPrefix sessionFound).map fun attempt =>
        (attempt.message.symbol, attempt.message.side, attempt.message.orderQty,
          attempt.message.ordType, attempt.message.price)) =
        (tracker.slots.filter fun position => !position.isFlat).map fun position =>
          (position.symbol.string, (flattenOrder arith position []).side,
            (flattenOrder arith position []).orderQty, '1', none) := by
      rw [flatten_eq_mapIdx]
      refine map_mapIdx_eq_map ?_ _
      intro index position
      rfl
    rw [figures]
    apply List.map_congr_left
    intro position inScan
    rw [side_flattenOrder, orderQty_flattenOrder arith
      (small position (List.mem_filter.mp inScan).1)]
  outcomes := by
    rw [flatten_eq_mapIdx, List.length_mapIdx]
    refine map_mapIdx_eq_range ?_ _
    intro index position
    rfl

end Killswitch

/-! ## Every order filled -/

/-- A reported portion is booked as a fill of its shares, on the order's symbol and side. -/
theorem Portion.Reported.booked {portion : Portion} (reported : portion.Reported)
    (arith : Arithmetic) (fits : InRange 32 portion.shares) :
    bookedEvent arith portion.report = some (portion.fill arith) ∧
      (portion.fill arith).isFill = true ∧
      (portion.fill arith).symbol.string = text 8 (Pointer.ofList portion.order.symbol) ∧
      (portion.fill arith).side = (if portion.order.side = '1' then .buy else .sell) ∧
      (portion.fill arith).fillQty = portion.shares := by
  obtain ⟨price, lastPx⟩ := reported.lastPx
  obtain ⟨execType, etype, hasType, booked, fillType⟩ : ∃ execType etype,
      portion.report.execType = some execType ∧
      MessageTranslator.bookedType execType = some etype ∧
      (etype = .partialFill ∨ etype = .fullFill) := by
    obtain partialFill | fullFill := reported.execType
    · exact ⟨_, _, partialFill, rfl, .inl rfl⟩
    · exact ⟨_, _, fullFill, rfl, .inr rfl⟩
  have event : bookedEvent arith portion.report = some (MessageTranslator.reportedEvent arith
      portion.report etype portion.order.symbol portion.order.clOrdId portion.order.side) := by
    rw [bookedEvent, MessageTranslator.fromExecutionReport_eq_some_iff.mpr
      ⟨execType, etype, _, _, _, hasType, booked, reported.echo.symbol, reported.echo.clOrdId,
        reported.echo.side, rfl⟩]
  have filled : portion.fill arith = MessageTranslator.reportedEvent arith portion.report etype
      portion.order.symbol portion.order.clOrdId portion.order.side := by
    rw [Portion.fill, event, Option.getD_some]
  rw [filled]
  refine ⟨event, ?_, ?_, ?_, ?_⟩
  · simpa [MessageTranslator.isFill_reportedEvent] using fillType
  · rw [MessageTranslator.symbol_reportedEvent, string_strncpy]
  · rw [MessageTranslator.side_reportedEvent]
  · rw [MessageTranslator.fillQty_reportedEvent arith _ etype _ _ _ fillType reported.lastShares
      lastPx, truncate, Rat.num_intCast, Rat.den_intCast]
    simpa using arith.int32_exact fits

namespace FilledInFull

open Killswitch

variable {arith : Arithmetic} {tracker : PositionTracker} {idPrefix : List UInt8}
  {sessionFound : Nat → Bool} {portions : List Portion}
  (filled : FilledInFull (flatten arith tracker idPrefix sessionFound) portions)
  (small : ∀ position ∈ tracker.slots, |position.netQty| < 2147483648)

include filled small

/-- The portions of one order add up to the size of the position it is against. -/
theorem sum_shares {position : Position} (member : position ∈ tracker.slots)
    {flatId : List UInt8} (attempted : flattenOrder arith position flatId ∈
      (flatten arith tracker idPrefix sessionFound).map Attempt.message) :
    ((portions.filter fun portion => portion.order = flattenOrder arith position flatId).map
      Portion.shares).sum = |position.netQty| := by
  have total := filled.complete _ attempted
  rw [orderQty_flattenOrder arith (small position member)] at total
  exact_mod_cast total

/-- No portion is larger than its order. -/
theorem inRange_shares {portion : Portion} (member : portion ∈ portions) :
    InRange 32 portion.shares := by
  obtain ⟨position, inTable, _, flatId, same⟩ :=
    exists_of_mem_flatten (filled.attempted portion member)
  have attempted := filled.attempted portion member
  rw [same] at attempted
  have total := filled.sum_shares small inTable attempted
  have fits := small position inTable
  have part : portion.shares ≤ ((portions.filter fun portion =>
      portion.order = flattenOrder arith position flatId).map Portion.shares).sum := by
    apply List.single_le_sum
    · intro shares inShares
      obtain ⟨other, inFilter, rfl⟩ := List.mem_map.mp inShares
      exact (filled.reported other (List.mem_filter.mp inFilter).1).positive.le
    · exact List.mem_map_of_mem (List.mem_filter.mpr ⟨member, by simpa using same⟩)
  have positive := (filled.reported portion member).positive
  exact inRange_32 (by omega) (by omega)

/-- A portion is booked on the symbol its order names. -/
theorem symbol_fill {portion : Portion} (member : portion ∈ portions) :
    (portion.fill arith).symbol.string = portion.order.symbol := by
  obtain ⟨_, _, symbol, _⟩ :=
    (filled.reported portion member).booked arith (filled.inRange_shares small member)
  obtain ⟨position, _, _, flatId, same⟩ := exists_of_mem_flatten (filled.attempted portion member)
  rw [symbol, same]
  exact text_ofList_text 8 _

/-- A portion is booked as a fill of some shares. -/
theorem fillQty_pos {portion : Portion} (member : portion ∈ portions) :
    0 < (portion.fill arith).fillQty := by
  obtain ⟨_, _, _, _, fillQty⟩ :=
    (filled.reported portion member).booked arith (filled.inRange_shares small member)
  rw [fillQty]
  exact (filled.reported portion member).positive

/-- The fills of one symbol are its portions. -/
theorem fillsOf_portions (sym : StringView) :
    PositionTracker.fillsOf sym (portions.map (Portion.fill arith)) =
      (portions.filter fun portion => portion.order.symbol = fieldKey sym).map
        (Portion.fill arith) := by
  rw [PositionTracker.fillsOf, List.filter_map]
  congr 1
  apply List.filter_congr
  intro portion member
  obtain ⟨_, isFill, _⟩ :=
    (filled.reported portion member).booked arith (filled.inRange_shares small member)
  simp [isFill, filled.symbol_fill small member]

/-- The reports are booked as the portions' fills. -/
theorem foldl_takeReport :
    (portions.map Portion.report).foldl (takeReport arith) tracker =
      (portions.map (Portion.fill arith)).foldl (PositionTracker.applyEvent arith) tracker := by
  rw [List.foldl_map, List.foldl_map]
  apply List.foldl_ext
  intro before portion member
  obtain ⟨event, _⟩ :=
    (filled.reported portion member).booked arith (filled.inRange_shares small member)
  rw [takeReport, event]

omit small in
/-- No order is against a flat position, so no portion is on its symbol. -/
theorem portions_of_flat {position : Position} (member : position ∈ tracker.slots)
    (flat : position.isFlat = true) :
    (portions.filter fun portion => portion.order.symbol = position.key) = [] := by
  apply List.filter_eq_nil_iff.mpr
  intro portion inPortions
  obtain ⟨other, inTable, held, flatId, same⟩ :=
    exists_of_mem_flatten (filled.attempted portion inPortions)
  rw [decide_eq_true_eq, same]
  intro sameKey
  rw [tracker.eq_of_key_eq inTable member sameKey, flat] at held
  cases held

omit small in
/-- The portions on the symbol of a position are those of the one order against it. -/
theorem portions_of_held {position : Position} {flatId : List UInt8}
    (attempted : flattenOrder arith position flatId ∈
      (flatten arith tracker idPrefix sessionFound).map Attempt.message) :
    (portions.filter fun portion => portion.order.symbol = position.key) =
      portions.filter fun portion => portion.order = flattenOrder arith position flatId := by
  have distinct := nodup_symbol_flatten arith tracker idPrefix sessionFound
  change (List.map (NewOrderSingle.symbol ∘ Attempt.message) _).Nodup at distinct
  rw [← List.map_map] at distinct
  apply List.filter_congr
  intro portion inPortions
  rw [decide_eq_decide]
  constructor
  · intro sameKey
    exact List.inj_on_of_nodup_map distinct (filled.attempted portion inPortions) attempted sameKey
  · intro same
    rw [same]
    rfl

/-- What is booked for a portion of the order against a position. -/
theorem fill_of_held {position : Position} {flatId : List UInt8} {portion : Portion}
    (member : portion ∈ portions.filter fun portion =>
      portion.order = flattenOrder arith position flatId) :
    (portion.fill arith).side = (if 0 < position.netQty then .sell else .buy) ∧
      (portion.fill arith).fillQty = portion.shares := by
  obtain ⟨inPortions, same⟩ := List.mem_filter.mp member
  obtain ⟨_, _, _, side, fillQty⟩ := (filled.reported portion inPortions).booked arith
    (filled.inRange_shares small inPortions)
  refine ⟨?_, fillQty⟩
  rw [side, of_decide_eq_true same, side_flattenOrder]
  split <;> rfl

/-- What the fills of a symbol buy and sell is the position with the opposite sign. -/
theorem totals_portions {position : Position} (member : position ∈ tracker.slots)
    {sym : StringView} (named : fieldKey sym = position.key) :
    PositionTracker.totalBuyQty
        (PositionTracker.fillsOf sym (portions.map (Portion.fill arith))) =
      max (-position.netQty) 0 ∧
    PositionTracker.totalSellQty
        (PositionTracker.fillsOf sym (portions.map (Portion.fill arith))) =
      max position.netQty 0 := by
  rw [filled.fillsOf_portions small, named]
  by_cases flat : position.isFlat = true
  · have zero : position.netQty = 0 := by simpa [Position.isFlat] using flat
    rw [filled.portions_of_flat member flat, zero]
    exact ⟨rfl, rfl⟩
  · rw [Bool.not_eq_true] at flat
    obtain ⟨flatId, attempted⟩ := exists_flattenOrder_mem arith idPrefix sessionFound member flat
    rw [filled.portions_of_held attempted]
    have fields : ∀ portion ∈ portions.filter fun portion =>
        portion.order = flattenOrder arith position flatId,
        (portion.fill arith).side = (if 0 < position.netQty then .sell else .buy) ∧
          (portion.fill arith).fillQty = portion.shares :=
      fun portion inFilter => filled.fill_of_held small inFilter
    have total : (((portions.filter fun portion =>
        portion.order = flattenOrder arith position flatId).map (Portion.fill arith)).map
          OrderEvent.fillQty).sum = |position.netQty| := by
      rw [List.map_map, ← filled.sum_shares small member attempted]
      congr 1
      exact List.map_congr_left fun portion inFilter => (fields portion inFilter).2
    by_cases long : 0 < position.netQty
    · obtain ⟨bought, sold⟩ := PositionTracker.totals_of_sells
        (List.forall_mem_map.mpr fun portion inFilter => by
          rw [(fields portion inFilter).1, if_pos long]
          decide)
      rw [bought, sold, total, abs_of_pos long]
      exact ⟨by omega, by omega⟩
    · obtain ⟨bought, sold⟩ := PositionTracker.totals_of_buys
        (List.forall_mem_map.mpr fun portion inFilter => by
          rw [(fields portion inFilter).1, if_neg long])
      rw [bought, sold, total, abs_of_nonpos (not_lt.mp long)]
      exact ⟨by omega, by omega⟩

/-- The portions open no position. -/
theorem exists_before {position : Position}
    (member : position ∈ ((portions.map Portion.report).foldl (takeReport arith) tracker).slots) :
    ∃ before ∈ tracker.slots, before.key = position.key := by
  have inKeys : position.key ∈ ((portions.map Portion.report).foldl (takeReport arith)
      tracker).keys := List.mem_map_of_mem member
  rw [filled.foldl_takeReport small] at inKeys
  obtain old | ⟨fill, inFills, same⟩ := (PositionTracker.projects arith).mem_keys_foldl inKeys
  · exact List.mem_map.mp old
  · obtain ⟨portion, inPortions, rfl⟩ := List.mem_map.mp inFills
    obtain ⟨before, inTable, _, flatId, order⟩ :=
      exists_of_mem_flatten (filled.attempted portion inPortions)
    rw [filled.symbol_fill small inPortions, order] at same
    exact ⟨before, inTable, same.symm⟩

end FilledInFull

/-- After fills whose totals fit their fields, one `flatten` attempts exactly the orders that
close the book, and once all of them are filled every position is flat. -/
theorem flatten_closes_book (arith : Arithmetic) {fills : List OrderEvent}
    (counted : PositionTracker.Counted fills) (idPrefix : List UInt8)
    (sessionFound : Nat → Bool) :
    let tracker := PositionTracker.project arith fills
    let attempts := Killswitch.flatten arith tracker idPrefix sessionFound
    Killswitch.OneOrderEach tracker sessionFound attempts ∧
      ∀ portions, FilledInFull attempts portions →
        ((portions.map Portion.report).foldl (takeReport arith) tracker).Closed := by
  intro tracker attempts
  have small : ∀ position ∈ tracker.slots, |position.netQty| < 2147483648 :=
    fun position member => counted.abs_netQty_lt member
  refine ⟨Killswitch.oneOrderEach_flatten arith small idPrefix sessionFound, ?_⟩
  intro portions filled position member
  obtain ⟨before, inTable, sameKey⟩ := filled.exists_before small member
  -- The two sequences of fills are one, and it is the whole that adds up to nothing.
  have whole : (portions.map Portion.report).foldl (takeReport arith) tracker =
      PositionTracker.project arith (fills ++ portions.map (Portion.fill arith)) := by
    rw [filled.foldl_takeReport small, PositionTracker.project, List.foldl_append]
    rfl
  rw [whole] at member
  have positive : ∀ event ∈ fills ++ portions.map (Portion.fill arith), event.isFill = true →
      0 < event.fillQty := by
    intro event inEvents isFill
    obtain held | closing := List.mem_append.mp inEvents
    · exact counted.positive event held isFill
    · obtain ⟨portion, inPortions, rfl⟩ := List.mem_map.mp closing
      exact filled.fillQty_pos small inPortions
  have named : fieldKey position.symbolView = before.key := sameKey.symm
  have held := counted.netQty_eq inTable named
  obtain ⟨_, _, _, _⟩ := counted.totals_range position.symbolView
  obtain ⟨bought, sold⟩ := filled.totals_portions small inTable named
  have totals := PositionTracker.totals_of_mem_project member positive
    (show fieldKey position.symbolView = position.key from rfl)
  rw [PositionTracker.fillsOf_append, PositionTracker.totalBuyQty_append,
    PositionTracker.totalSellQty_append, bought, sold] at totals
  obtain ⟨net, price⟩ := totals (by norm_num; omega) (by norm_num; omega)
  have closed : position.netQty = 0 := by omega
  exact ⟨closed, price closed⟩

/-- Three shares long in one symbol, two short in another. -/
def heldFills : List OrderEvent :=
  let fill symbol side qty :=
    makeFill (StringView.ofList (ascii symbol)) side qty 10 (StringView.ofList (ascii "O1")) false
  [fill "AAPL" .buy 3, fill "MSFT" .sell 2]

/-- The attempts against them, none of which finds a session. -/
def heldAttempts : List (Attempt NewOrderSingle) :=
  Killswitch.flatten .wrapping (PositionTracker.project .wrapping heldFills) (ascii "FL")
    fun _ => false

/-- Some shares of an order filled at a price of 12. -/
def portionOf (shares : Int) (order : NewOrderSingle) : Portion where
  order := order
  shares := shares
  report := {
    execType := some '1'
    clOrdId := some order.clOrdId
    symbol := some order.symbol
    side := some order.side
    lastShares := some shares
    lastPx := some 12 }

/-- One share of the first order, the second order, and the rest of the first. -/
def heldPortions : List Portion :=
  match heldAttempts.map Attempt.message with
  | [first, second] => [portionOf 1 first, portionOf 2 second, portionOf 2 first]
  | _ => []

theorem counted_heldFills : PositionTracker.Counted heldFills where
  positive := by decide
  bought sym := by
    simp only [PositionTracker.fillsOf, heldFills, List.filter_cons, List.filter_nil]
    split <;> split <;> decide
  sold sym := by
    simp only [PositionTracker.fillsOf, heldFills, List.filter_cons, List.filter_nil]
    split <;> split <;> decide

theorem filledInFull_heldPortions : FilledInFull heldAttempts heldPortions where
  reported := by
    have made : ∀ portion ∈ heldPortions,
        0 < portion.shares ∧ portion = portionOf portion.shares portion.order := by
      decide +kernel
    intro portion member
    obtain ⟨positive, same⟩ := made portion member
    rw [same]
    exact ⟨.inl rfl, ⟨rfl, rfl, rfl⟩, rfl, ⟨_, rfl⟩, positive⟩
  attempted := by decide +kernel
  complete := by decide +kernel

/-- Both positions end flat. -/
theorem flatten_closes_book_held :
    ((heldPortions.map Portion.report).foldl (takeReport .wrapping)
      (PositionTracker.project .wrapping heldFills)).Closed :=
  (flatten_closes_book .wrapping counted_heldFills (ascii "FL") fun _ => false).2 heldPortions
    filledInFull_heldPortions

end Hft.Gateway
