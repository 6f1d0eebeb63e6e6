import Hft.Logical.Projection
import Hft.OrderManager
import Hft.PositionTracker
import Mathlib.Data.List.Induction

/-!
# What a record of either book depends on

Both books keep all their keys in one flat table with a shared counter. Read through
`SlotTable.Projects`, a symbol's position is still a fold over that symbol's fills alone,
and an order is a fold over the events that carry its id, from its first `NewOrder` on
(`books_independent`). The price of the shared table is its capacity: a fill of the
1025th symbol is dropped without a trace (`no_fill_lost_iff`).
-/

namespace Hft

open Logical

namespace PositionTracker

/-- A new tracker after a sequence of events. -/
def project (arith : Arithmetic) (events : List OrderEvent) : PositionTracker :=
  events.foldl (applyEvent arith) initial

/-- The fills of a symbol, in order. -/
def fillsOf (sym : StringView) (events : List OrderEvent) : List OrderEvent :=
  events.filter fun event => event.isFill ∧ event.symbol.string = fieldKey sym

/-- The sum of signed fill quantities, in the arithmetic of the field that holds it. -/
def signedSum (arith : Arithmetic) (fills : List OrderEvent) : Int :=
  fills.foldl (fun total fill => arith.int64 (total + fill.side.sign * fill.fillQty)) 0

/-- The position a first fill opens. -/
def openedBy (arith : Arithmetic) (event : OrderEvent) : Option Position :=
  if event.isFill then
    some (Position.applyFill arith event (Position.zeroed (strncpy event.symbolView.data 8)))
  else none

/-- What an event does to the position of its symbol. -/
def booked (arith : Arithmetic) (event : OrderEvent) (position : Position) : Position :=
  if event.isFill then position.applyFill arith event else position

theorem projects (arith : Arithmetic) :
    SlotTable.Projects (applyEvent arith) (fun event => event.symbol.string) (openedBy arith)
      (booked arith) where
  frame differs := find?_applyEvent_of_ne arith _ differs
  rewritten {tracker event position} found := by
    cases isFill : event.isFill with
    | true => simp [booked, isFill, find?_applyEvent_self arith tracker isFill found]
    | false => simpa [booked, isFill, applyEvent_of_not_fill arith tracker isFill] using found
  opened {tracker event} absent room := by
    cases isFill : event.isFill with
    | true => simp [openedBy, isFill, find?_applyEvent_of_room arith tracker isFill absent room]
    | false => simpa [openedBy, isFill, applyEvent_of_not_fill arith tracker isFill] using absent
  dropped {tracker event} absent full := by
    rw [← key_applyFill_zeroed arith event] at absent
    cases isFill : event.isFill with
    | true => rw [applyEvent, if_pos isFill, SlotTable.upsert_of_full _ absent full]
    | false => exact applyEvent_of_not_fill arith tracker isFill

/-- A slot after an event is one from before, or the event is a fill and the slot is what it
made of one from before or of a cleared one. -/
theorem mem_applyEvent {arith : Arithmetic} {tracker : PositionTracker} {event : OrderEvent}
    {position : Position} (member : position ∈ (tracker.applyEvent arith event).slots) :
    position ∈ tracker.slots ∨
    (event.isFill = true ∧ ∃ before, (before ∈ tracker.slots ∨
        before = Position.zeroed (strncpy event.symbolView.data 8)) ∧
      position = before.applyFill arith event) := by
  obtain ⟨old, _⟩ | ⟨_, written⟩ := (projects arith).mem_apply member
  · exact .inl old
  · cases isFill : event.isFill with
    | false =>
        rw [applyEvent_of_not_fill arith tracker isFill] at member
        exact .inl member
    | true =>
        refine .inr ⟨rfl, ?_⟩
        cases found : tracker.find? event.symbol.string with
        | some before =>
            rw [found, SlotTable.advance, booked, if_pos isFill] at written
            exact ⟨before, .inl (SlotTable.find?_eq_some_iff.mp found).1,
              (Option.some.inj written).symm⟩
        | none =>
            rw [found, SlotTable.advance, openedBy, if_pos isFill] at written
            exact ⟨_, .inr rfl, (Option.some.inj written).symm⟩

/-- Only fills matter. -/
theorem foldl_applyEvent_filter (arith : Arithmetic) (events : List OrderEvent)
    (tracker : PositionTracker) :
    (events.filter OrderEvent.isFill).foldl (applyEvent arith) tracker =
      events.foldl (applyEvent arith) tracker := by
  induction events generalizing tracker with
  | nil => rfl
  | cons event rest ih =>
      cases isFill : event.isFill with
      | true => rw [List.filter_cons_of_pos isFill, List.foldl_cons, List.foldl_cons, ih]
      | false =>
          rw [List.filter_cons_of_neg (by simp [isFill]), List.foldl_cons,
            applyEvent_of_not_fill arith tracker isFill, ih]

/-- The fold of a symbol's fills, from the cleared position on. -/
def foldFills (arith : Arithmetic) (sym : StringView) (fills : List OrderEvent) : Position :=
  fills.foldl (fun position fill => position.applyFill arith fill)
    (Position.zeroed (strncpy sym.data 8))

theorem foldFills_concat (arith : Arithmetic) (sym : StringView) (fills : List OrderEvent)
    (fill : OrderEvent) :
    foldFills arith sym (fills ++ [fill]) = (foldFills arith sym fills).applyFill arith fill := by
  rw [foldFills, List.foldl_append]
  rfl

/-- The first fill opens the position, and the rest rewrite it. -/
theorem foldl_advance (arith : Arithmetic) {sym : StringView} {fills : List OrderEvent}
    (areFills : ∀ fill ∈ fills, fill.isFill = true ∧ fill.symbol.string = fieldKey sym) :
    fills.foldl (SlotTable.advance (openedBy arith) (booked arith)) none =
      if fills = [] then none else some (foldFills arith sym fills) := by
  cases fills with
  | nil => rfl
  | cons fill rest =>
      obtain ⟨isFill, onSymbol⟩ := areFills fill List.mem_cons_self
      have sameField : strncpy fill.symbolView.data 8 = strncpy sym.data 8 :=
        strncpy_congr onSymbol
      have opened : SlotTable.advance (openedBy arith) (booked arith) none fill =
          some ((Position.zeroed (strncpy sym.data 8)).applyFill arith fill) := by
        simp [SlotTable.advance, openedBy, isFill, sameField]
      rw [List.foldl_cons, opened, SlotTable.foldl_advance_some, if_neg (List.cons_ne_nil _ _)]
      refine congrArg some (List.foldl_ext _ _ _ ?_)
      intro position other member
      exact if_pos (areFills other (List.mem_cons_of_mem _ member)).1

theorem filter_isFill_filter (sym : StringView) (events : List OrderEvent) :
    (events.filter OrderEvent.isFill).filter (fun event => event.symbol.string = fieldKey sym) =
      fillsOf sym events := by
  rw [List.filter_filter, fillsOf]
  congr 1
  funext event
  simp [Bool.and_comm]

theorem mem_fillsOf_iff {sym : StringView} {events : List OrderEvent} {event : OrderEvent} :
    event ∈ fillsOf sym events ↔
      event ∈ events ∧ event.isFill = true ∧ event.symbol.string = fieldKey sym := by
  simp [fillsOf]

theorem fillQty_pos_of_mem_fillsOf {events : List OrderEvent}
    (positive : ∀ event ∈ events, event.isFill = true → 0 < event.fillQty) {sym : StringView}
    {fill : OrderEvent} (member : fill ∈ fillsOf sym events) : 0 < fill.fillQty := by
  obtain ⟨inEvents, isFill, _⟩ := mem_fillsOf_iff.mp member
  exact positive fill inEvents isFill

/-- A symbol that owns a slot holds the fold of its own fills. -/
theorem eq_foldFills_of_get {arith : Arithmetic} {events : List OrderEvent} {sym : StringView}
    {position : Position} (found : (project arith events).get sym = some position) :
    position = foldFills arith sym (fillsOf sym events) := by
  rw [get_eq_find?, project, ← foldl_applyEvent_filter] at found
  have own := (projects arith).find?_of_found found
  rw [filter_isFill_filter] at own
  have folded := foldl_advance arith fun event (member : event ∈ fillsOf sym events) =>
    (mem_fillsOf_iff.mp member).2
  rw [show SlotTable.find? initial (fieldKey sym) = none from rfl, folded] at own
  split at own
  · cases own
  · exact (Option.some.inj own).symm

/-- A position's net quantity is the sum of its fills. -/
theorem netQty_foldFills (arith : Arithmetic) (sym : StringView) (fills : List OrderEvent) :
    (foldFills arith sym fills).netQty = signedSum arith fills := by
  have from_ : ∀ position : Position,
      (fills.foldl (fun position fill => position.applyFill arith fill) position).netQty =
        fills.foldl (fun total fill => arith.int64 (total + fill.side.sign * fill.fillQty))
          position.netQty := by
    induction fills with
    | nil => exact fun _ => rfl
    | cons fill rest ih =>
        intro position
        rw [List.foldl_cons, List.foldl_cons, ih, Position.netQty_applyFill]
  exact from_ _

/-- The sum of signed fill quantities. -/
def signedTotal (fills : List OrderEvent) : Int :=
  (fills.map fun fill => fill.side.sign * fill.fillQty).sum

theorem signedTotal_concat (fills : List OrderEvent) (fill : OrderEvent) :
    signedTotal (fills ++ [fill]) = signedTotal fills + fill.side.sign * fill.fillQty := by
  simp [signedTotal]

/-- While every running total is one the field can hold, the field holds it. -/
theorem signedSum_eq_signedTotal {arith : Arithmetic} {fills : List OrderEvent}
    (fits : ∀ earlier, earlier <+: fills →
      arith.int64 (signedTotal earlier) = signedTotal earlier) :
    signedSum arith fills = signedTotal fills := by
  induction fills using List.reverseRecOn with
  | nil => rfl
  | append_singleton earlier fill ih =>
      have soFar := ih fun start within => fits start (within.trans (List.prefix_append _ _))
      have whole := fits _ List.prefix_rfl
      rw [signedSum, List.foldl_append]
      change arith.int64 (signedSum arith earlier + fill.side.sign * fill.fillQty) = _
      rw [soFar, ← signedTotal_concat, whole]

/-! ## The capacity of the position table -/

/-- The symbols of all fills, one mention for each. -/
def fillSymbols (events : List OrderEvent) : List (List UInt8) :=
  (events.filter OrderEvent.isFill).map fun event => event.symbol.string

/-- A log whose fills all show in the positions replayed from it. -/
def AllFillsBooked (tracker : PositionTracker) (events : List OrderEvent) : Prop :=
  ∀ event ∈ events, event.isFill = true → ∃ position,
    tracker.get event.symbolView = some position ∧
    position.netQty = signedTotal (fillsOf event.symbolView events)

/-- Symbols with slots of their own are no more than there are slots. -/
theorem AllFillsBooked.dedup_le {tracker : PositionTracker} {events : List OrderEvent}
    (booked : AllFillsBooked tracker events) :
    (fillSymbols events).dedup.length ≤ maxSymbols := by
  have inTable : (fillSymbols events).dedup ⊆ tracker.keys := by
    intro symbol member
    obtain ⟨event, inFills, rfl⟩ := List.mem_map.mp (List.mem_dedup.mp member)
    obtain ⟨inEvents, isFill⟩ := List.mem_filter.mp inFills
    obtain ⟨position, found, _⟩ := booked event inEvents isFill
    rw [get_eq_find?] at found
    exact SlotTable.mem_keys_of_find? found
  have fits := (List.subperm_of_subset (List.nodup_dedup _) inTable).length_le
  rw [SlotTable.length_keys] at fits
  exact fits.trans tracker.bounded

/-- While the fills name no more symbols than there are slots, each symbol has the fold of
its fills. -/
theorem get_project_of_room (arith : Arithmetic) {events : List OrderEvent}
    (few : (fillSymbols events).dedup.length ≤ maxSymbols) {sym : StringView}
    (traded : fillsOf sym events ≠ []) :
    (project arith events).get sym = some (foldFills arith sym (fillsOf sym events)) := by
  have known : SlotTable.keys initial ⊆ fillSymbols events := List.nil_subset _
  have named : ∀ event ∈ events.filter OrderEvent.isFill,
      event.symbol.string ∈ fillSymbols events := fun event member => List.mem_map_of_mem member
  rw [get_eq_find?, project, ← foldl_applyEvent_filter,
    (projects arith).find?_foldl_of_room few known named, filter_isFill_filter]
  have folded := foldl_advance arith fun event (member : event ∈ fillsOf sym events) =>
    (mem_fillsOf_iff.mp member).2
  rw [if_neg traded] at folded
  exact folded

theorem abs_signedTotal_le {fills : List OrderEvent}
    (fields : ∀ fill ∈ fills, InRange 32 fill.fillQty) :
    |signedTotal fills| ≤ 2147483648 * fills.length := by
  induction fills with
  | nil => simp [signedTotal]
  | cons fill rest ih =>
      have tail := ih fun other member => fields other (List.mem_cons_of_mem _ member)
      obtain ⟨low, high⟩ := fields fill List.mem_cons_self
      have total : signedTotal (fill :: rest) =
          fill.side.sign * fill.fillQty + signedTotal rest := by simp [signedTotal]
      have head : |fill.side.sign * fill.fillQty| ≤ 2147483648 := by
        rw [abs_le]
        simp only [Side.sign]
        norm_num at low high
        split <;> omega
      rw [total, List.length_cons]
      have := abs_add_le (fill.side.sign * fill.fillQty) (signedTotal rest)
      push_cast
      omega

/-- No log is long enough to overflow a net quantity: ten million 32-bit fills are far from
the range of 64 bits. -/
theorem signedSum_eq_of_short (arith : Arithmetic) {fills : List OrderEvent}
    (fields : ∀ fill ∈ fills, InRange 32 fill.fillQty) (short : fills.length ≤ maxEvents) :
    signedSum arith fills = signedTotal fills := by
  apply signedSum_eq_signedTotal
  intro earlier within
  have shorter : earlier.length ≤ maxEvents := within.length_le.trans short
  have bound := abs_le.mp (abs_signedTotal_le fun fill member =>
    fields fill (within.subset member))
  simp only [maxEvents] at shorter
  exact arith.int64_exact (inRange_64 (by omega) (by omega))

theorem signedSum_eq_of_log (arith : Arithmetic) {log : EventLog}
    (fields : ∀ event ∈ log.events, InRange 32 event.fillQty) (sym : StringView) :
    signedSum arith (fillsOf sym log.events) = signedTotal (fillsOf sym log.events) :=
  signedSum_eq_of_short arith (fun fill member => fields fill (mem_fillsOf_iff.mp member).1)
    ((List.length_filter_le _ _).trans log.bounded)

/-- Replaying a log books every fill exactly when the log's fills name at most `MAX_SYMBOLS`
symbols; the fills of every further symbol are dropped. -/
theorem no_fill_lost_iff (arith : Arithmetic) (tracker : PositionTracker) {log : EventLog}
    (fields : ∀ event ∈ log.events, InRange 32 event.fillQty) :
    AllFillsBooked (tracker.replayFrom arith log) log.events ↔
      (fillSymbols log.events).dedup.length ≤ maxSymbols := by
  refine ⟨AllFillsBooked.dedup_le, fun few event member isFill => ?_⟩
  have own : event ∈ fillsOf event.symbolView log.events :=
    mem_fillsOf_iff.mpr ⟨member, isFill, rfl⟩
  refine ⟨_, get_project_of_room arith few (List.ne_nil_of_mem own), ?_⟩
  rw [netQty_foldFills, signedSum_eq_of_log arith fields]

/-- One share bought of each of the symbols `0`, `1`, … -/
def fillOfSymbol (number : Nat) : OrderEvent :=
  makeFill (StringView.ofList (toDecimal number)) .buy 1 0 (StringView.ofList (ascii "O1")) false

/-- A log with one fill of each of a number of symbols. -/
def symbolsLog (count : Nat) (bounded : count ≤ maxEvents) : EventLog where
  events := (List.range count).map fillOfSymbol
  bounded := by simpa using bounded

theorem inRange_symbolsLog {count : Nat} {bounded : count ≤ maxEvents} {event : OrderEvent}
    (member : event ∈ (symbolsLog count bounded).events) : InRange 32 event.fillQty := by
  obtain ⟨number, _, rfl⟩ := List.mem_map.mp member
  change InRange 32 1
  decide

/-- The fills of two symbols are both booked. -/
theorem no_fill_lost_two_symbols :
    AllFillsBooked (initial.replayFrom .wrapping (symbolsLog 2 (by decide)))
      (symbolsLog 2 (by decide)).events :=
  (no_fill_lost_iff .wrapping initial fun _ member => inRange_symbolsLog member).mpr (by decide)

/-- Numbers of at most eight digits make different symbols. -/
theorem fillSymbols_symbolsLog {count : Nat} {bounded : count ≤ maxEvents} :
    (fillSymbols (symbolsLog count bounded).events).dedup.length = count := by
  have symbols : fillSymbols (symbolsLog count bounded).events =
      (List.range count).map toDecimal := by
    have allFills : (symbolsLog count bounded).events.filter OrderEvent.isFill =
        (List.range count).map fillOfSymbol := by
      apply List.filter_eq_self.mpr
      intro event member
      obtain ⟨number, _, rfl⟩ := List.mem_map.mp member
      rfl
    rw [fillSymbols, allFills, List.map_map]
    apply List.map_congr_left
    intro number member
    have small := List.mem_range.mp member
    simp only [maxEvents] at bounded
    have short : (toDecimal number).length ≤ 8 :=
      (length_toDecimal_le_iff (by decide)).mpr (by omega)
    have copied : (fillOfSymbol number).symbol.string =
        text 8 (Pointer.ofList (toDecimal number)) := string_strncpy _ 8
    rw [Function.comp_apply, copied, text_ofList fun _ digit => toDecimal_ne_zero digit,
      List.take_of_length_le short]
  rw [symbols, (List.nodup_range.map toDecimal_injective).dedup, List.length_map,
    List.length_range]

/-- The fill of the 1025th symbol leaves no trace in the positions. -/
theorem fill_of_symbol_1025_lost :
    ¬∀ (tracker : PositionTracker) (log : EventLog),
      (∀ event ∈ log.events, InRange 32 event.fillQty) →
      AllFillsBooked (tracker.replayFrom .wrapping log) log.events := by
  intro always
  have booked := always initial (symbolsLog 1025 (by decide)) fun _ member =>
    inRange_symbolsLog member
  have fits := booked.dedup_le
  rw [fillSymbols_symbolsLog] at fits
  exact absurd fits (by decide)

end PositionTracker

namespace OrderManager

/-- A new manager after a sequence of events. -/
def project (arith : Arithmetic) (events : List OrderEvent) : OrderManager :=
  events.foldl (applyEvent arith) initial

/-- The events that carry an id, in order. -/
def eventsOf (oid : StringView) (events : List OrderEvent) : List OrderEvent :=
  events.filter fun event => event.orderId.string = fieldKey oid

/-- The order that a `NewOrder` opens; no other event opens one. -/
def openedBy (event : OrderEvent) : Option Order :=
  if event.type = .newOrder then some (Order.opened (strncpy event.orderIdView.data 8) event)
  else none

theorem projects (arith : Arithmetic) :
    SlotTable.Projects (applyEvent arith) (fun event => event.orderId.string) openedBy
      (rewrite arith) where
  frame differs := find?_applyEvent_of_ne arith _ differs
  rewritten found := find?_applyEvent_self arith _ found
  opened {orders event} absent room := by
    by_cases isNew : event.type = .newOrder
    · rw [← key_opened_strncpy event] at absent ⊢
      rw [applyEvent_of_newOrder arith orders isNew, handleNew, openedBy, if_pos isNew]
      exact SlotTable.find?_upsert_self_of_room _ absent room
    · rw [applyEvent_of_ne_newOrder arith orders isNew, SlotTable.update_of_absent _ absent,
        openedBy, if_neg isNew]
      exact absent
  dropped {orders event} absent full := by
    by_cases isNew : event.type = .newOrder
    · rw [← key_opened_strncpy event] at absent
      rw [applyEvent_of_newOrder arith orders isNew]
      exact SlotTable.upsert_of_full _ absent full
    · rw [applyEvent_of_ne_newOrder arith orders isNew]
      exact SlotTable.update_of_absent _ absent

/-- A slot after an event is one from before, the rewritten slot of the event's id, or the
one a `NewOrder` created. -/
theorem mem_applyEvent {arith : Arithmetic} {orders : OrderManager} {event : OrderEvent}
    {slot : Order} (member : slot ∈ (orders.applyEvent arith event).slots) :
    slot ∈ orders.slots ∨
    (∃ before, orders.find? event.orderId.string = some before ∧
      slot = rewrite arith event before) ∨
    (event.type = .newOrder ∧ slot = Order.opened (strncpy event.orderIdView.data 8) event) := by
  obtain ⟨old, _⟩ | ⟨_, written⟩ := (projects arith).mem_apply member
  · exact .inl old
  · cases found : orders.find? event.orderId.string with
    | some before =>
        rw [found] at written
        exact .inr (.inl ⟨before, rfl, (Option.some.inj written).symm⟩)
    | none =>
        rw [found, SlotTable.advance, openedBy] at written
        split at written
        · rename_i isNew
          exact .inr (.inr ⟨isNew, (Option.some.inj written).symm⟩)
        · cases written

/-- The first `NewOrder` opens the order, and every event from there on rewrites it. -/
theorem exists_of_foldl_advance {arith : Arithmetic} {oid : StringView} {events : List OrderEvent}
    (own : ∀ event ∈ events, event.orderId.string = fieldKey oid) {order : Order}
    (folded : events.foldl (SlotTable.advance openedBy (rewrite arith)) none = some order) :
    ∃ first rest, events.dropWhile (fun event => event.type ≠ .newOrder) = first :: rest ∧
      order = rest.foldl (fun order event => rewrite arith event order)
        (Order.opened (strncpy oid.data 8) first) := by
  induction events with
  | nil => cases folded
  | cons event rest ih =>
      rw [List.foldl_cons] at folded
      by_cases isNew : event.type = .newOrder
      · have sameField : strncpy event.orderIdView.data 8 = strncpy oid.data 8 :=
          strncpy_congr (own event List.mem_cons_self)
        have opened : SlotTable.advance openedBy (rewrite arith) none event =
            some (Order.opened (strncpy oid.data 8) event) := by
          simp [SlotTable.advance, openedBy, isNew, sameField]
        rw [opened, SlotTable.foldl_advance_some] at folded
        exact ⟨event, rest, by simp [isNew], (Option.some.inj folded).symm⟩
      · have ignored : SlotTable.advance openedBy (rewrite arith) none event = none := by
          simp [SlotTable.advance, openedBy, isNew]
        rw [ignored] at folded
        obtain ⟨first, later, dropped, equal⟩ :=
          ih (fun other member => own other (List.mem_cons_of_mem _ member)) folded
        refine ⟨first, later, ?_, equal⟩
        rw [List.dropWhile_cons_of_pos (by simpa using isNew), dropped]

/-- An id that owns a slot holds the fold of its own events from its first `NewOrder` on. -/
theorem exists_fold_of_find {arith : Arithmetic} {events : List OrderEvent} {oid : StringView}
    {order : Order} (found : (project arith events).find oid = some order) :
    ∃ first rest,
      (eventsOf oid events).dropWhile (fun event => event.type ≠ .newOrder) = first :: rest ∧
      order = rest.foldl (fun order event => rewrite arith event order)
        (Order.opened (strncpy oid.data 8) first) := by
  rw [find_eq_find?] at found
  apply exists_of_foldl_advance
  · intro event member
    simpa using (List.mem_filter.mp member).2
  · exact (projects arith).find?_of_found found

end OrderManager

/-- Each record of either book is a function of its own events, for every key that owns a
slot; so two event sequences that agree on a key's events agree on its record, whatever
else they hold. -/
theorem books_independent (arith : Arithmetic) (events : List OrderEvent) :
    (∀ sym position, (PositionTracker.project arith events).get sym = some position →
      let fills := PositionTracker.fillsOf sym events
      position = fills.foldl (fun position fill => position.applyFill arith fill)
        (Position.zeroed (strncpy sym.data 8)) ∧
      position.netQty = PositionTracker.signedSum arith fills ∧
      ((∀ earlier, earlier <+: fills → arith.int64 (PositionTracker.signedTotal earlier) =
        PositionTracker.signedTotal earlier) →
        position.netQty = PositionTracker.signedTotal fills)) ∧
    (∀ oid order, (OrderManager.project arith events).find oid = some order →
      ∃ first rest, (OrderManager.eventsOf oid events).dropWhile
          (fun event => event.type ≠ .newOrder) = first :: rest ∧
        order = rest.foldl (fun order event => OrderManager.rewrite arith event order)
          (Order.opened (strncpy oid.data 8) first)) ∧
    (∀ events' sym position position',
      PositionTracker.fillsOf sym events' = PositionTracker.fillsOf sym events →
      (PositionTracker.project arith events).get sym = some position →
      (PositionTracker.project arith events').get sym = some position' → position' = position) ∧
    (∀ events' oid order order',
      OrderManager.eventsOf oid events' = OrderManager.eventsOf oid events →
      (OrderManager.project arith events).find oid = some order →
      (OrderManager.project arith events').find oid = some order' → order' = order) := by
  refine ⟨?_, fun oid order found => OrderManager.exists_fold_of_find found, ?_, ?_⟩
  · intro sym position found fills
    have folded : position = PositionTracker.foldFills arith sym fills :=
      PositionTracker.eq_foldFills_of_get found
    have net : position.netQty = PositionTracker.signedSum arith fills := by
      rw [folded, PositionTracker.netQty_foldFills]
    exact ⟨folded, net, fun fits => net.trans (PositionTracker.signedSum_eq_signedTotal fits)⟩
  · intro events' sym position position' same found found'
    rw [PositionTracker.eq_foldFills_of_get found, PositionTracker.eq_foldFills_of_get found', same]
  · intro events' oid order order' same found found'
    obtain ⟨first, rest, own, rfl⟩ := OrderManager.exists_fold_of_find found
    obtain ⟨first', rest', own', rfl⟩ := OrderManager.exists_fold_of_find found'
    rw [same, own] at own'
    cases own'
    rfl

/-- Fills of two symbols, one of them between two of the other. -/
def interleavedFills : List OrderEvent :=
  let fill symbol side qty :=
    makeFill (StringView.ofList (ascii symbol)) side qty 10 (StringView.ofList (ascii "O1")) false
  [fill "AAPL" .buy 3, fill "MSFT" .buy 5, fill "AAPL" .sell 1]

/-- The position of AAPL is what its two fills make of it. -/
theorem books_independent_interleaved :
    ∃ position, (PositionTracker.project .wrapping interleavedFills).get
        (StringView.ofList (ascii "AAPL")) = some position ∧
      position.netQty = PositionTracker.signedSum .wrapping
        (PositionTracker.fillsOf (StringView.ofList (ascii "AAPL")) interleavedFills) ∧
      position.netQty = 2 := by
  have isHeld : ((PositionTracker.project .wrapping interleavedFills).get
      (StringView.ofList (ascii "AAPL"))).isSome := by decide +kernel
  obtain ⟨position, found⟩ := Option.isSome_iff_exists.mp isHeld
  have net := ((books_independent .wrapping interleavedFills).1 _ _ found).2.1
  exact ⟨position, found, net, net.trans (by decide +kernel)⟩

end Hft
