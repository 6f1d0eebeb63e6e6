import Hft.Gateway.Interleaving
import Hft.Gateway.Tracking
import Hft.PositionTracker.Direction
import Hft.Projections

/-!
# Sequence stamps

`append` stamps its own copy of an event, and the gateway hands its unstamped one to both
projections. A replay of the log stamps every slot with the sequence number of the entry
that last wrote it (`orderStamped_project`, `positionStamped_project`); the live
projections stamp every slot with zero (`LiveStamps`). The two agree only while no entry
but the first concerns a slot.
-/

namespace Hft

open Logical

/-- Entry `seq` is the last one of its kind. -/
def LastEntry (events : List OrderEvent) (kind : OrderEvent → Prop) (seq : Nat) : Prop :=
  (∃ event, events[seq]? = some event ∧ kind event) ∧
    ∀ index event, seq < index → events[index]? = some event → ¬kind event

namespace LastEntry

variable {events : List OrderEvent} {kind : OrderEvent → Prop} {seq seq' : Nat}

theorem unique (last : LastEntry events kind seq) (last' : LastEntry events kind seq') :
    seq = seq' := by
  obtain ⟨⟨event, entry, ofKind⟩, none_⟩ := last
  obtain ⟨⟨event', entry', ofKind'⟩, none_'⟩ := last'
  rcases Nat.lt_trichotomy seq seq' with below | same | above
  · exact absurd ofKind' (none_ seq' event' below entry')
  · exact same
  · exact absurd ofKind (none_' seq event above entry)

theorem append_self {event : OrderEvent} (ofKind : kind event) :
    LastEntry (events ++ [event]) kind events.length := by
  refine ⟨⟨event, by simp, ofKind⟩, fun index other behind entry => ?_⟩
  obtain ⟨below, _⟩ := List.getElem?_eq_some_iff.mp entry
  rw [List.length_append, List.length_singleton] at below
  omega

theorem append_other (last : LastEntry events kind seq) {event : OrderEvent}
    (notKind : ¬kind event) : LastEntry (events ++ [event]) kind seq := by
  obtain ⟨⟨entry, found, ofKind⟩, none_⟩ := last
  obtain ⟨below, _⟩ := List.getElem?_eq_some_iff.mp found
  refine ⟨⟨entry, by rw [List.getElem?_append_left below, found], ofKind⟩, ?_⟩
  intro index other behind at_
  by_cases inside : index < events.length
  · rw [List.getElem?_append_left inside] at at_
    exact none_ index other behind at_
  · rw [List.getElem?_append_right (Nat.not_lt.mp inside), List.getElem?_singleton] at at_
    split at at_
    · cases at_
      exact notKind
    · cases at_

/-- A table whose slots are all about entry 0 has at most one slot. -/
theorem length_le_one {α κ : Type} {key : α → κ} {capacity : Nat}
    {table : SlotTable α key capacity} {about : α → OrderEvent → Prop} {name : OrderEvent → κ}
    (named : ∀ slot event, about slot event → name event = key slot)
    (first : ∀ slot ∈ table.slots, LastEntry events (about slot) 0) :
    table.slots.length ≤ 1 := by
  cases events with
  | nil =>
      have unused : table.slots = [] := by
        apply List.eq_nil_iff_forall_not_mem.mpr
        intro slot member
        obtain ⟨⟨event, entry, _⟩, _⟩ := first slot member
        cases entry
      rw [unused]
      exact Nat.zero_le 1
  | cons event rest =>
      have oneKey : ∀ slot ∈ table.slots, key slot = name event := by
        intro slot member
        obtain ⟨⟨other, entry, isAbout⟩, _⟩ := first slot member
        cases entry
        exact (named slot event isAbout).symm
      exact table.length_le_one oneKey

end LastEntry

/-- Each entry carries its own index, and one of the six event types. -/
def Sequenced (events : List OrderEvent) : Prop :=
  ∀ (index : Nat) (event : OrderEvent), events[index]? = some event →
    event.sequence = index ∧ event.type ≠ .unset

theorem Sequenced.append {events : List OrderEvent} (sequenced : Sequenced events)
    {event : OrderEvent} (numbered : event.sequence = events.length)
    (typed : event.type ≠ .unset) : Sequenced (events ++ [event]) := by
  intro index other entry
  by_cases inside : index < events.length
  · rw [List.getElem?_append_left inside] at entry
    exact sequenced index other entry
  · rw [List.getElem?_append_right (Nat.not_lt.mp inside), List.getElem?_singleton] at entry
    split at entry
    · cases entry
      exact ⟨by omega, typed⟩
    · cases entry

theorem Sequenced.of_append {events : List OrderEvent} {event : OrderEvent}
    (sequenced : Sequenced (events ++ [event])) :
    Sequenced events ∧ event.sequence = events.length ∧ event.type ≠ .unset := by
  refine ⟨fun index other entry => ?_, sequenced events.length event (by simp)⟩
  obtain ⟨below, _⟩ := List.getElem?_eq_some_iff.mp entry
  exact sequenced index other (by rw [List.getElem?_append_left below, entry])

/-! ## Stamps of a replay -/

/-- The stamps of an order name the `NewOrder` that opened it and the last entry that
carries its id. -/
structure OrderStamped (events : List OrderEvent) (order : Order) : Prop where
  opened : LastEntry events
    (fun event => event.type = .newOrder ∧ event.orderId.string = order.key) order.openedSeq
  last : LastEntry events (fun event => event.orderId.string = order.key) order.lastSeq

/-- The stamp of a position names the last fill of its symbol. -/
def PositionStamped (events : List OrderEvent) (position : Position) : Prop :=
  ∃ seq : Nat, position.lastUpdatedSeq = seq ∧
    LastEntry events (fun event => event.isFill ∧ event.symbol.string = position.key) seq

namespace OrderManager

theorem lastSeq_rewrite (arith : Arithmetic) {event : OrderEvent} (typed : event.type ≠ .unset)
    (order : Order) : (rewrite arith event order).lastSeq = event.sequence := by
  unfold rewrite
  cases type : event.type with
  | unset => exact absurd type typed
  | _ => rfl

theorem openedSeq_rewrite (arith : Arithmetic) (event : OrderEvent) (order : Order) :
    (rewrite arith event order).openedSeq =
      if event.type = .newOrder then event.sequence else order.openedSeq := by
  unfold rewrite
  cases type : event.type <;> rfl

/-- The stamps of a slot that an event has just written. -/
theorem stamps_of_advance {arith : Arithmetic} {event : OrderEvent} (typed : event.type ≠ .unset)
    {before : Option Order} {order : Order}
    (written : SlotTable.advance openedBy (rewrite arith) before event = some order) :
    order.lastSeq = event.sequence ∧
      if event.type = .newOrder then order.openedSeq = event.sequence
      else ∃ old, before = some old ∧ order.openedSeq = old.openedSeq := by
  cases before with
  | some old =>
      cases written
      refine ⟨lastSeq_rewrite arith typed old, ?_⟩
      rw [openedSeq_rewrite]
      split
      · rfl
      · exact ⟨old, rfl, rfl⟩
  | none =>
      simp only [SlotTable.advance, openedBy] at written
      split at written
      · cases written
        rename_i isNew
        rw [if_pos isNew]
        exact ⟨rfl, rfl⟩
      · cases written

/-- A replay stamps every order with the entries that wrote it. -/
theorem orderStamped_project {arith : Arithmetic} {events : List OrderEvent}
    (sequenced : Sequenced events) {order : Order}
    (member : order ∈ (project arith events).slots) : OrderStamped events order := by
  induction events using List.reverseRecOn generalizing order with
  | nil => cases member
  | append_singleton earlier event ih =>
      obtain ⟨before, numbered, typed⟩ := sequenced.of_append
      rw [project, List.foldl_append] at member
      rcases (projects arith).mem_apply member with ⟨old, other⟩ | ⟨own, written⟩
      · have stamped := ih before old
        exact ⟨stamped.opened.append_other fun carries => other carries.2.symm,
          stamped.last.append_other fun carries => other carries.symm⟩
      · obtain ⟨last, opened⟩ := stamps_of_advance typed written
        refine ⟨?_, ?_⟩
        · split at opened
          · rename_i isNew
            rw [opened, numbered]
            exact LastEntry.append_self ⟨isNew, own.symm⟩
          · rename_i notNew
            obtain ⟨old, found, same⟩ := opened
            obtain ⟨inTable, oldKey⟩ := SlotTable.find?_eq_some_iff.mp found
            rw [same]
            have stamped := (ih before inTable).opened
            rw [oldKey, ← own] at stamped
            exact stamped.append_other fun carries => notNew carries.1
        · rw [last, numbered]
          exact LastEntry.append_self own.symm

end OrderManager

namespace PositionTracker

/-- The stamp of a slot that an event has just written, or passed over. -/
theorem stamp_of_advance {arith : Arithmetic} {event : OrderEvent} {before : Option Position}
    {position : Position}
    (written : SlotTable.advance (openedBy arith) (booked arith) before event = some position) :
    if event.isFill then position.lastUpdatedSeq = event.sequence else before = some position := by
  cases before with
  | some old =>
      cases written
      unfold booked
      split
      · exact Position.lastUpdatedSeq_applyFill arith event old
      · rfl
  | none =>
      simp only [SlotTable.advance, openedBy] at written
      split at written
      · cases written
        rename_i isFill
        rw [if_pos isFill]
        exact Position.lastUpdatedSeq_applyFill arith event _
      · cases written

/-- A replay stamps every position with the last fill of its symbol. -/
theorem positionStamped_project {arith : Arithmetic} {events : List OrderEvent}
    (sequenced : Sequenced events) {position : Position}
    (member : position ∈ (project arith events).slots) : PositionStamped events position := by
  induction events using List.reverseRecOn generalizing position with
  | nil => cases member
  | append_singleton earlier event ih =>
      obtain ⟨before, numbered, _⟩ := sequenced.of_append
      rw [project, List.foldl_append] at member
      rcases (projects arith).mem_apply member with ⟨old, other⟩ | ⟨own, written⟩
      · obtain ⟨seq, stamp, last⟩ := ih before old
        exact ⟨seq, stamp, last.append_other fun fill => other fill.2.symm⟩
      · have stamp := stamp_of_advance written
        split at stamp
        · rename_i isFill
          refine ⟨earlier.length, ?_, LastEntry.append_self ⟨isFill, own.symm⟩⟩
          rw [stamp, numbered]
        · rename_i notFill
          obtain ⟨seq, same, last⟩ := ih before (SlotTable.find?_eq_some_iff.mp stamp).1
          exact ⟨seq, same, last.append_other fun fill => notFill fill.1⟩

end PositionTracker

/-! ## When a replay stamps nothing but zeros -/

/-- No entry behind the first is a fill or carries the id of a logged order. -/
def OnlyFirstConcerns (events : List OrderEvent) : Prop :=
  ∀ index event, 0 < index → events[index]? = some event →
    event.isFill = false ∧
      ∀ placed ∈ events, placed.type = .newOrder → placed.orderId.string ≠ event.orderId.string

/-- Every stamp that a replay leaves is zero. -/
structure ZeroReplay (arith : Arithmetic) (events : List OrderEvent) : Prop where
  orders : ∀ order ∈ (OrderManager.project arith events).slots,
    order.openedSeq = 0 ∧ order.lastSeq = 0
  positions : ∀ position ∈ (PositionTracker.project arith events).slots,
    position.lastUpdatedSeq = 0

namespace ZeroReplay

variable {arith : Arithmetic} {events : List OrderEvent} {index : Nat} {event : OrderEvent}

/-- A later fill would be the last of its symbol, or find a table full of one symbol. -/
theorem isFill_eq_false (zero : ZeroReplay arith events) (sequenced : Sequenced events)
    (later : 0 < index) (entry : events[index]? = some event) : event.isFill = false := by
  by_contra fill
  rw [Bool.not_eq_false] at fill
  have firstOnly : ∀ position ∈ (PositionTracker.project arith events).slots,
      LastEntry events (fun event => event.isFill ∧ event.symbol.string = position.key) 0 := by
    intro position member
    obtain ⟨seq, stamp, last⟩ := PositionTracker.positionStamped_project sequenced member
    rw [zero.positions position member] at stamp
    have first : seq = 0 := by omega
    exact first ▸ last
  cases found : (PositionTracker.project arith events).find? event.symbol.string with
  | some position =>
      obtain ⟨member, key⟩ := SlotTable.find?_eq_some_iff.mp found
      exact (firstOnly position member).2 index event later entry ⟨fill, key.symm⟩
  | none =>
      have opening : (PositionTracker.openedBy arith event).isSome := by
        simp [PositionTracker.openedBy, fill]
      have full : maxSymbols ≤ (PositionTracker.project arith events).slots.length :=
        (PositionTracker.projects arith).full_of_absent (List.mem_of_getElem? entry) opening found
      have one := LastEntry.length_le_one (fun _ _ fill => fill.2) firstOnly
      exact absurd (full.trans one) (by decide)

/-- A later event on a logged order would be the order's last, or the order found a table
full of one id. -/
theorem orderId_ne (zero : ZeroReplay arith events) (sequenced : Sequenced events)
    (later : 0 < index) (entry : events[index]? = some event) {placed : OrderEvent}
    (logged : placed ∈ events) (isNew : placed.type = .newOrder) :
    placed.orderId.string ≠ event.orderId.string := by
  intro same
  have firstOnly : ∀ order ∈ (OrderManager.project arith events).slots,
      LastEntry events (fun event => event.orderId.string = order.key) 0 := by
    intro order member
    have last := (OrderManager.orderStamped_project sequenced member).last
    rwa [(zero.orders order member).2] at last
  cases found : (OrderManager.project arith events).find? placed.orderId.string with
  | some order =>
      obtain ⟨member, key⟩ := SlotTable.find?_eq_some_iff.mp found
      exact (firstOnly order member).2 index event later entry (same.symm.trans key.symm)
  | none =>
      have opening : (OrderManager.openedBy placed).isSome := by
        simp [OrderManager.openedBy, isNew]
      have full : maxOrders ≤ (OrderManager.project arith events).slots.length :=
        (OrderManager.projects arith).full_of_absent logged opening found
      have one := LastEntry.length_le_one (fun _ _ carries => carries) firstOnly
      exact absurd (full.trans one) (by decide)

end ZeroReplay

theorem zeroReplay_iff {arith : Arithmetic} {events : List OrderEvent}
    (sequenced : Sequenced events) : ZeroReplay arith events ↔ OnlyFirstConcerns events := by
  constructor
  · intro zero index event later entry
    exact ⟨zero.isFill_eq_false sequenced later entry, fun placed logged isNew =>
      zero.orderId_ne sequenced later entry logged isNew⟩
  · intro onlyFirst
    refine ⟨fun order member => ?_, fun position member => ?_⟩
    · have stamped := OrderManager.orderStamped_project sequenced member
      obtain ⟨⟨placed, opening, isNew, key⟩, _⟩ := stamped.opened
      obtain ⟨⟨last, entry, carries⟩, _⟩ := stamped.last
      have logged := List.mem_of_getElem? opening
      constructor
      · by_contra stamp
        exact (onlyFirst _ _ (Nat.pos_of_ne_zero stamp) opening).2 placed logged isNew rfl
      · by_contra stamp
        exact (onlyFirst _ _ (Nat.pos_of_ne_zero stamp) entry).2 placed logged isNew
          (key.trans carries.symm)
    · obtain ⟨seq, stamp, ⟨fill, entry, isFill, _⟩, _⟩ :=
        PositionTracker.positionStamped_project sequenced member
      have first : seq = 0 := by
        by_contra later
        have notFill := (onlyFirst _ _ (Nat.pos_of_ne_zero later) entry).1
        rw [isFill] at notFill
        cases notFill
      rw [stamp, first]
      rfl

namespace Gateway

/-- The switch yields one of the four booked types. -/
theorem MessageTranslator.ne_unset_of_bookedType {execType : Char} {etype : EventType}
    (booked : bookedType execType = some etype) : etype ≠ .unset := by
  unfold bookedType at booked
  rintro rfl
  split_ifs at booked <;> simp at booked

/-- A translated report is typed and not stamped. -/
theorem MessageTranslator.unstamped {arith : Arithmetic} {report : ExecutionReport}
    {event : OrderEvent} (translated : fromExecutionReport arith report = .ok (some event)) :
    event.sequence = 0 ∧ event.type ≠ .unset := by
  obtain ⟨execType, etype, symbol, clOrdId, side, _, booked, _, _, _, rfl⟩ :=
    fromExecutionReport_eq_some_iff.mp translated
  rw [type_reportedEvent]
  refine ⟨?_, ne_unset_of_bookedType booked⟩
  obtain ⟨qty, price, equal⟩ := reportedEvent_eq_header arith report etype symbol clOrdId side
  rw [equal]
  rfl

namespace FIXGateway

variable {arith : Arithmetic} {limits : RiskLimits} {log : EventLog} {gateway : FIXGateway}

/-- The stamps of a running gateway: the log's are in order, the projections' are all
zero. -/
structure LiveStamps (gateway : FIXGateway) : Prop where
  sequenced : Sequenced gateway.log.events
  orders : ∀ order ∈ gateway.orders.slots, order.openedSeq = 0 ∧ order.lastSeq = 0
  positions : ∀ position ∈ gateway.tracker.slots, position.lastUpdatedSeq = 0

namespace LiveStamps

/-- An unstamped event leaves zeros on the order it writes. -/
theorem orders_applyEvent (live : gateway.LiveStamps) (arith : Arithmetic) {event : OrderEvent}
    (unstamped : event.sequence = 0) (typed : event.type ≠ .unset) :
    ∀ order ∈ (gateway.orders.applyEvent arith event).slots,
      order.openedSeq = 0 ∧ order.lastSeq = 0 := by
  intro order member
  rcases (OrderManager.projects arith).mem_apply member with ⟨old, _⟩ | ⟨_, written⟩
  · exact live.orders order old
  · obtain ⟨last, opened⟩ := OrderManager.stamps_of_advance typed written
    rw [unstamped] at last opened
    refine ⟨?_, last⟩
    split at opened
    · exact opened
    · obtain ⟨before, found, same⟩ := opened
      rw [same]
      exact (live.orders before (SlotTable.find?_eq_some_iff.mp found).1).1

/-- An unstamped event leaves a zero on the position it writes. -/
theorem positions_applyEvent (live : gateway.LiveStamps) (arith : Arithmetic)
    {event : OrderEvent} (unstamped : event.sequence = 0) :
    ∀ position ∈ (gateway.tracker.applyEvent arith event).slots,
      position.lastUpdatedSeq = 0 := by
  intro position member
  obtain old | ⟨_, before, _, rfl⟩ := PositionTracker.mem_applyEvent member
  · exact live.positions position old
  · rw [Position.lastUpdatedSeq_applyFill, unstamped]
    rfl

theorem sequenced_append (live : gateway.LiveStamps) {longer : EventLog} {event : OrderEvent}
    {now : Nat} (typed : event.type ≠ .unset) (events : longer.events = gateway.log.events ++
      [EventLog.stamp gateway.log.size now event]) : Sequenced longer.events := by
  rw [events]
  exact live.sequenced.append rfl typed

/-- Every call keeps the log's stamps in order and the projections' at zero. -/
theorem step (live : gateway.LiveStamps) {after : FIXGateway}
    (call : SessionStep arith gateway after) : after.LiveStamps := by
  cases call with
  | sendOrder args now sessionFound =>
      rcases sendOrder_cases arith gateway args now sessionFound with
        ⟨_, blocked⟩ | ⟨_, _, stopped⟩ | ⟨longer, _, _, events, sent⟩
      · rw [blocked]
        exact live
      · rw [stopped]
        exact ⟨live.sequenced, live.orders, live.positions⟩
      · rw [sent]
        have typed : (gateway.newOrderEvent args).type ≠ .unset := EventType.noConfusion
        exact ⟨live.sequenced_append typed events, live.orders_applyEvent arith rfl typed,
          live.positions⟩
  | fromApp message now returned =>
      rcases fromApp_cases returned with rfl | ⟨report, event, _, translated, booked⟩
      · exact live
      · obtain ⟨unstamped, typed⟩ := MessageTranslator.unstamped translated
        obtain ⟨longer, _, events, rfl⟩ := book_eq_ok_iff.mp booked
        exact ⟨live.sequenced_append typed events, live.orders_applyEvent arith unstamped typed,
          live.positions_applyEvent arith unstamped⟩
  | onLogon => exact ⟨live.sequenced, live.orders, live.positions⟩
  | onLogout => exact ⟨live.sequenced, live.orders, live.positions⟩
  | markToMarket sym mktPriceFp =>
      refine ⟨live.sequenced, live.orders, fun position member => ?_⟩
      obtain ⟨before, old, rfl⟩ :=
        (SlotTable.mem_update _ (Position.key_mark arith mktPriceFp)).mp member
      have kept : (before.mark arith mktPriceFp).lastUpdatedSeq = before.lastUpdatedSeq := by
        unfold Position.mark
        split <;> rfl
      split
      · rw [kept]
        exact live.positions before old
      · exact live.positions before old

end LiveStamps

theorem InSession.liveStamps (run : InSession arith limits EventLog.empty gateway) :
    gateway.LiveStamps := by
  induction run with
  | refl =>
      exact ⟨fun _ _ entry => (nomatch entry), fun _ member => (nomatch member),
        fun _ member => (nomatch member)⟩
  | tail _ call ih => exact ih.step call

/-- A session is a run of the two threads from the rebuilt projections. -/
theorem InSession.settles (run : InSession arith limits log gateway) :
    (Process.between gateway).Settles arith := by
  have threads : Relation.ReflTransGen (Process.Step arith)
      (Process.rebuilt arith (start arith limits log)) (Process.between gateway) := by
    induction run with
    | refl => exact .refl
    | tail _ call ih => exact ih.trans (Process.run_of_sessionStep call)
  exact Process.Settles.run threads

/-! ## Live stamps against the log -/

/-- Every stamp names the log entry that it stands for. -/
structure StampsNameEntries (gateway : FIXGateway) : Prop where
  orders : ∀ order ∈ gateway.orders.slots, OrderStamped gateway.log.events order
  positions : ∀ position ∈ gateway.tracker.slots, PositionStamped gateway.log.events position

/-- Slot by slot, the stamps are those that a replay of the log would leave. -/
structure StampsReplayed (arith : Arithmetic) (gateway : FIXGateway) : Prop where
  orders : gateway.orders.slots.map (fun order => (order.openedSeq, order.lastSeq)) =
    (gateway.orders.replayFrom arith gateway.log).slots.map
      fun order => (order.openedSeq, order.lastSeq)
  positions : gateway.tracker.slots.map Position.lastUpdatedSeq =
    (gateway.tracker.replayFrom arith gateway.log).slots.map Position.lastUpdatedSeq

/-- Beside a list of one value, a list of the same length agrees with it exactly when it
holds nothing else. -/
theorem map_eq_map_iff_of_constant {α γ : Type} (figure : α → γ) {value : γ} {left right : List α}
    (lengths : left.length = right.length) (constant : ∀ entry ∈ left, figure entry = value) :
    left.map figure = right.map figure ↔ ∀ entry ∈ right, figure entry = value := by
  rw [List.map_eq_replicate_iff.mpr constant, eq_comm, lengths, List.map_eq_replicate_iff]

/-- The live tables have the keys of a replay, slot by slot. -/
theorem InSession.keys_replayed (run : InSession arith limits log gateway) :
    gateway.orders.keys = (OrderManager.project arith gateway.log.events).keys ∧
      gateway.tracker.keys = (PositionTracker.project arith gateway.log.events).keys :=
  ⟨(run.settles.orders.map_eq_map OrderManager.key_eq_of_logged_eq).symm,
    (run.settles.tracker.map_eq_map PositionTracker.key_eq_of_logged_eq).symm⟩

theorem stampsReplayed_iff (run : InSession arith limits EventLog.empty gateway) :
    StampsReplayed arith gateway ↔ ZeroReplay arith gateway.log.events := by
  have live := run.liveStamps
  obtain ⟨orderKeys, symbolKeys⟩ := run.keys_replayed
  have orderCount : gateway.orders.slots.length =
      (OrderManager.project arith gateway.log.events).slots.length := by
    rw [← SlotTable.length_keys, ← SlotTable.length_keys, orderKeys]
  have symbolCount : gateway.tracker.slots.length =
      (PositionTracker.project arith gateway.log.events).slots.length := by
    rw [← SlotTable.length_keys, ← SlotTable.length_keys, symbolKeys]
  have liveOrders : ∀ order ∈ gateway.orders.slots,
      (order.openedSeq, order.lastSeq) = (0, 0) := fun order member =>
    Prod.ext_iff.mpr (live.orders order member)
  have orders := map_eq_map_iff_of_constant (fun order => (order.openedSeq, order.lastSeq))
    orderCount liveOrders
  have positions := map_eq_map_iff_of_constant Position.lastUpdatedSeq symbolCount live.positions
  constructor
  · intro replayed
    exact ⟨fun order member => Prod.ext_iff.mp (orders.mp replayed.orders order member),
      positions.mp replayed.positions⟩
  · intro zero
    exact ⟨orders.mpr fun order member => Prod.ext_iff.mpr (zero.orders order member),
      positions.mpr zero.positions⟩

theorem stampsNameEntries_iff (run : InSession arith limits EventLog.empty gateway) :
    StampsNameEntries gateway ↔ ZeroReplay arith gateway.log.events := by
  have live := run.liveStamps
  obtain ⟨orderKeys, symbolKeys⟩ := run.keys_replayed
  constructor
  · intro named
    refine ⟨fun replayed member => ?_, fun replayed member => ?_⟩
    · obtain ⟨order, inTable, key⟩ := SlotTable.exists_twin orderKeys.symm member
      have stamped := OrderManager.orderStamped_project live.sequenced member
      have liveStamped := named.orders order inTable
      obtain ⟨opened, last⟩ := live.orders order inTable
      exact ⟨(stamped.opened.unique (key ▸ liveStamped.opened)).trans opened,
        (stamped.last.unique (key ▸ liveStamped.last)).trans last⟩
    · obtain ⟨position, inTable, key⟩ := SlotTable.exists_twin symbolKeys.symm member
      obtain ⟨seq, stamp, last⟩ :=
        PositionTracker.positionStamped_project live.sequenced member
      obtain ⟨seq', stamp', last'⟩ := named.positions position inTable
      rw [key] at last'
      rw [stamp, last.unique last', ← stamp']
      exact live.positions position inTable
  · intro zero
    refine ⟨fun order member => ?_, fun position member => ?_⟩
    · obtain ⟨replayed, inTable, key⟩ := SlotTable.exists_twin orderKeys member
      obtain ⟨opened, last⟩ := OrderManager.orderStamped_project live.sequenced inTable
      obtain ⟨openedZero, lastZero⟩ := zero.orders replayed inTable
      obtain ⟨liveOpened, liveLast⟩ := live.orders order member
      rw [openedZero, key] at opened
      rw [lastZero, key] at last
      exact ⟨liveOpened.symm ▸ opened, liveLast.symm ▸ last⟩
    · obtain ⟨replayed, inTable, key⟩ := SlotTable.exists_twin symbolKeys member
      obtain ⟨seq, stamp, last⟩ :=
        PositionTracker.positionStamped_project live.sequenced inTable
      rw [zero.positions replayed inTable] at stamp
      rw [key] at last
      exact ⟨seq, (live.positions position member).trans stamp, last⟩

/-- The stamps of a session that began with an empty log name log entries, and equal those
of a replay, exactly as long as no entry but the first is a fill or carries the id of a
logged order. -/
theorem stamps_name_entries_iff (run : InSession arith limits EventLog.empty gateway) :
    (StampsNameEntries gateway ↔ OnlyFirstConcerns gateway.log.events) ∧
      (StampsReplayed arith gateway ↔ OnlyFirstConcerns gateway.log.events) := by
  have sequenced := run.liveStamps.sequenced
  exact ⟨(stampsNameEntries_iff run).trans (zeroReplay_iff sequenced),
    (stampsReplayed_iff run).trans (zeroReplay_iff sequenced)⟩

/-- A session that has sent one order. -/
def oneOrderGateway : FIXGateway := (connectedGateway.sendOrder .wrapping sampleArgs 0 true).gateway

theorem inSession_oneOrderGateway : InSession .wrapping {} EventLog.empty oneOrderGateway :=
  .tail inSession_connectedGateway (.sendOrder sampleArgs 0 true)

/-- The first order of a session is entry 0, and stamped so. After a fill and a second order
neither kind of stamp is right. -/
theorem stamps_name_entries_traded :
    (StampsNameEntries oneOrderGateway ∧ StampsReplayed .wrapping oneOrderGateway) ∧
      ¬StampsNameEntries tradedGateway ∧ ¬StampsReplayed .wrapping tradedGateway := by
  have onlyFirst : OnlyFirstConcerns oneOrderGateway.log.events := by
    intro index event later entry
    obtain ⟨below, _⟩ := List.getElem?_eq_some_iff.mp entry
    have one : oneOrderGateway.log.events.length = 1 := rfl
    omega
  have filled : ¬OnlyFirstConcerns tradedGateway.log.events := by
    intro concerns
    have entry := (concerns 1 _ one_pos (Option.eq_some_of_isSome (by decide +kernel))).1
    revert entry
    decide +kernel
  have first := stamps_name_entries_iff inSession_oneOrderGateway
  have traded := stamps_name_entries_iff inSession_tradedGateway
  exact ⟨⟨first.1.mpr onlyFirst, first.2.mpr onlyFirst⟩, mt traded.1.mp filled,
    mt traded.2.mp filled⟩

/-- The second order of a session is entry 1, and stamped 0. -/
theorem second_order_stamped_zero :
    ¬∀ (limits : RiskLimits) (gateway : FIXGateway),
      InSession .wrapping limits EventLog.empty gateway →
      StampsNameEntries gateway ∧ StampsReplayed .wrapping gateway := by
  intro always
  have replayed := (always {} (oneOrderGateway.sendOrder .wrapping sampleArgs 0 true).gateway
    (.tail inSession_oneOrderGateway (.sendOrder sampleArgs 0 true))).2.orders
  revert replayed
  decide +kernel

end FIXGateway

end Gateway

end Hft
