import Hft.Gateway.RoundTrip

/-!
# The gateway and the exchange

A `Market` is the gateway, the exchange's own book of the orders it received, and the reports
that are on their way between the two. The exchange decides when an order changes; the
gateway learns of it report by report. `InStep` says what the two books have in common at
every moment: if the reports in flight were booked now, each order would be as the
exchange has it. The translator drops two of the endings an exchange can report, done for
day and expired, and after these nothing brings the books together again. Nor does anything
after a `sendToTarget` that found no session: the order is open in the one book and missing
from the other.
-/

namespace Hft.Gateway

open Logical

/-- A change of a live order, as an exchange reports it. -/
inductive Change where
  | partialFill (lastShares lastPx : ℚ)
  | fill (lastShares lastPx : ℚ)
  | doneForDay
  | canceled
  | rejected
  | expired
deriving DecidableEq

namespace Change

/-- The FIX 4.2 codes. -/
def execType : Change → Char
  | partialFill _ _ => '1'
  | fill _ _ => '2'
  | doneForDay => '3'
  | canceled => '4'
  | rejected => '8'
  | expired => 'C'

def lastShares : Change → Option ℚ
  | partialFill shares _ => some shares
  | fill shares _ => some shares
  | _ => none

def lastPx : Change → Option ℚ
  | partialFill _ px => some px
  | fill _ px => some px
  | _ => none

/-- The changes the gateway can follow: the translator books them, and a fill comes in whole
shares. -/
def Followed : Change → Prop
  | partialFill shares _ => shares.den = 1
  | fill shares _ => shares.den = 1
  | canceled => True
  | rejected => True
  | doneForDay => False
  | expired => False

end Change

/-- The exchange's record of an order. -/
structure Working where
  clOrdId : List UInt8
  orderQty : ℚ
  cumQty : ℚ
  live : Bool
deriving DecidableEq

namespace Working

/-- An order on arrival. -/
def received (message : NewOrderSingle) : Working := ⟨message.clOrdId, message.orderQty, 0, true⟩

/-- A live order can be ended at any time; fills are positive, a partial fill leaves a
remainder and a fill leaves none. -/
def Allows (working : Working) : Change → Prop
  | .partialFill shares px => 0 < shares ∧ 0 < px ∧ working.cumQty + shares < working.orderQty
  | .fill shares px => 0 < shares ∧ 0 < px ∧ working.cumQty + shares = working.orderQty
  | _ => True

def undergo (change : Change) (working : Working) : Working :=
  match change with
  | .partialFill shares _ => { working with cumQty := working.cumQty + shares }
  | .fill shares _ => { working with cumQty := working.cumQty + shares, live := false }
  | _ => { working with live := false }

@[simp] theorem clOrdId_undergo (change : Change) (working : Working) :
    (working.undergo change).clOrdId = working.clOrdId := by
  cases change <;> rfl

end Working

/-- A report about one change, under the id of its order. -/
structure Notice where
  clOrdId : List UInt8
  change : Change
  symbol : List UInt8
  side : Char

namespace Notice

def report (notice : Notice) : ExecutionReport where
  execType := some notice.change.execType
  clOrdId := some notice.clOrdId
  symbol := some notice.symbol
  side := some notice.side
  lastShares := notice.change.lastShares
  lastPx := notice.change.lastPx

/-- What `onMessage` does to the slot it addresses. -/
def rewrite (arith : Arithmetic) (notice : Notice) (order : Order) : Order :=
  match MessageTranslator.bookedType notice.change.execType with
  | some etype => OrderManager.rewrite arith (MessageTranslator.reportedEvent arith notice.report
      etype notice.symbol notice.clOrdId notice.side) order
  | none => order

end Notice

/-- Both parties and what is on its way between them. -/
structure Market where
  gateway : FIXGateway
  book : List Working
  inFlight : List Notice

/-- What may happen in a run: the changes of the exchange, and whether `sendToTarget` may find no
session, in which case the exchange never sees the order. -/
structure Conduct where
  follows : Change → Prop
  delivers : Bool → Prop

namespace Conduct

/-- Everything may happen. -/
def any : Conduct := ⟨fun _ => True, fun _ => True⟩

/-- The gateway can follow every change, and every order arrives. -/
def followable : Conduct := ⟨Change.Followed, fun sessionFound => sessionFound = true⟩

end Conduct

namespace Market

/-- A session on an empty log, at an exchange that has no orders of ours. -/
def start (arith : Arithmetic) (limits : RiskLimits) : Market :=
  ⟨FIXGateway.start arith limits EventLog.empty, [], []⟩

/-- A `send_order` call, with the order's arrival at the exchange. -/
def send (arith : Arithmetic) (market : Market) (args : FIXGateway.SendArgs) (now : Nat)
    (sessionFound : Bool) : Market :=
  let outcome := market.gateway.sendOrder arith args now sessionFound
  { market with
    gateway := outcome.gateway
    book := market.book ++ if sessionFound then outcome.handed.toList.map .received else [] }

/-- The exchange changes an order and puts the report on its way. -/
def change (market : Market) (notice : Notice) : Market :=
  { market with
    book := market.book.map fun working =>
      if working.clOrdId = notice.clOrdId then working.undergo notice.change else working
    inFlight := market.inFlight ++ [notice] }

/-- One move of either party, as far as the conduct admits it. -/
inductive Step (arith : Arithmetic) (conduct : Conduct) (market : Market) : Market → Prop where
  | send (args : FIXGateway.SendArgs) (now : Nat) (sessionFound : Bool)
      (slot : market.gateway.orders.orderCount < maxOrders)
      (delivered : ∀ message,
        (market.gateway.sendOrder arith args now sessionFound).handed = some message →
          conduct.delivers sessionFound) :
      Step arith conduct market (market.send arith args now sessionFound)
  | change {working : Working} (notice : Notice) (member : working ∈ market.book)
      (sameId : notice.clOrdId = working.clOrdId) (live : working.live = true)
      (allowed : working.Allows notice.change) (followed : conduct.follows notice.change) :
      Step arith conduct market (market.change notice)
  | process {notice : Notice} {rest : List Notice} {after : FIXGateway} (now : Nat)
      (next : market.inFlight = notice :: rest)
      (returned : market.gateway.onMessage arith notice.report now = .returned after) :
      Step arith conduct market { market with gateway := after, inFlight := rest }
  | onLogon : Step arith conduct market { market with gateway := market.gateway.onLogon }
  | onLogout : Step arith conduct market { market with gateway := market.gateway.onLogout }

/-- Every order that the exchange received is open in the manager exactly when it is live,
and no other order is open. -/
structure Agreement (market : Market) : Prop where
  received : ∀ working ∈ market.book, ∃ order,
    market.gateway.orders.find (StringView.ofList working.clOrdId) = some order ∧
      order.isOpen = working.live
  opened : ∀ order ∈ market.gateway.orders.slots, order.isOpen →
    ∃ working ∈ market.book, working.clOrdId = order.key ∧ working.live = true

end Market

/-! ## One order in both books -/

/-- A slot of the manager that is as the exchange has the order. -/
structure Matches (order : Order) (working : Working) : Prop where
  life : order.isOpen = working.live
  filled : (order.filledQty : ℚ) = working.cumQty
  quantity : (order.originalQty : ℚ) = working.orderQty
  nonneg : 0 ≤ order.filledQty
  typed : order.originalQty < 2 ^ 31

namespace Matches

variable {arith : Arithmetic} {order : Order} {working : Working}

/-- Whole shares within the order's quantity are booked as they are. -/
theorem exists_shares (matched : Matches order working) {shares : ℚ} (whole : shares.den = 1)
    (positive : 0 < shares) (within : working.cumQty + shares ≤ working.orderQty) :
    ∃ count : Int, (count : ℚ) = shares ∧ arith.int32 (truncate shares) = count ∧ 0 < count ∧
      order.filledQty + count ≤ order.originalQty := by
  have exactly : (shares.num : ℚ) = shares := (Rat.den_eq_one_iff shares).mp whole
  rw [← exactly] at positive
  rw [← matched.filled, ← matched.quantity, ← exactly] at within
  have count : 0 < shares.num := by exact_mod_cast positive
  have bound : order.filledQty + shares.num ≤ order.originalQty := by exact_mod_cast within
  refine ⟨shares.num, exactly, ?_, count, bound⟩
  have truncated : truncate shares = shares.num := by simp [truncate, whole]
  have := matched.nonneg
  have := matched.typed
  rw [truncated]
  exact arith.int32_exact (inRange_32 (by omega) (by omega))

/-- A booked fill. -/
theorem fill (matched : Matches order working) {event : OrderEvent} {shares : ℚ}
    (whole : shares.den = 1) (positive : 0 < shares)
    (within : working.cumQty + shares ≤ working.orderQty)
    (booked : event.fillQty = arith.int32 (truncate shares)) :
    ((order.fill arith event).filledQty : ℚ) = working.cumQty + shares ∧
      0 ≤ (order.fill arith event).filledQty ∧
      (order.fill arith event).isOpen = decide (working.cumQty + shares < working.orderQty) := by
  obtain ⟨count, exactly, truncated, counted, bound⟩ := matched.exists_shares whole positive within
  rw [truncated] at booked
  have nonneg := matched.nonneg
  have positiveQty : 0 < event.fillQty := by omega
  obtain ⟨filledEq, stateEq⟩ :=
    Order.fill_of_le arith nonneg positiveQty (by omega) matched.typed
  refine ⟨?_, ?_, ?_⟩
  · rw [filledEq, booked, ← matched.filled, ← exactly]
    push_cast
    rfl
  · rw [filledEq]
    omega
  · rw [Order.isOpen, stateEq, booked, ← matched.filled, ← matched.quantity, ← exactly]
    by_cases full : order.originalQty ≤ order.filledQty + count
    · have notBelow : ¬(order.filledQty : ℚ) + count < order.originalQty := by
        exact_mod_cast not_lt.mpr full
      simp [full, notBelow]
    · have below : (order.filledQty : ℚ) + count < order.originalQty := by
        exact_mod_cast not_le.mp full
      simp [full, below]

/-- The end of an order without a fill. -/
theorem close (matched : Matches order working) {order' : Order} {change : Change}
    (filled : order'.filledQty = order.filledQty)
    (quantity : order'.originalQty = order.originalQty) (closed : order'.isOpen = false)
    (ends : working.undergo change = { working with live := false }) :
    Matches order' (working.undergo change) := by
  rw [ends]
  exact ⟨closed, by rw [filled, matched.filled], by rw [quantity, matched.quantity],
    by rw [filled]; exact matched.nonneg, by rw [quantity]; exact matched.typed⟩

/-- Booking the report of a change makes the same change to the slot. -/
theorem change (matched : Matches order working) (live : working.live = true) {notice : Notice}
    (allowed : working.Allows notice.change) (followed : notice.change.Followed) :
    Matches (notice.rewrite arith order) (working.undergo notice.change) := by
  obtain ⟨clOrdId, change, symbol, side⟩ := notice
  cases change with
  | partialFill shares px =>
      obtain ⟨positive, _, below⟩ := allowed
      have booked := MessageTranslator.fillQty_reportedEvent arith
        (Notice.report ⟨clOrdId, .partialFill shares px, symbol, side⟩) .partialFill symbol clOrdId
        side (.inl rfl) rfl rfl
      obtain ⟨filled, nonneg, isOpen⟩ := matched.fill followed positive below.le booked
      refine ⟨?_, filled, matched.quantity, nonneg, matched.typed⟩
      exact isOpen.trans ((decide_eq_true below).trans live.symm)
  | fill shares px =>
      obtain ⟨positive, _, complete⟩ := allowed
      have booked := MessageTranslator.fillQty_reportedEvent arith
        (Notice.report ⟨clOrdId, .fill shares px, symbol, side⟩) .fullFill symbol clOrdId
        side (.inr rfl) rfl rfl
      obtain ⟨filled, nonneg, isOpen⟩ := matched.fill followed positive complete.le booked
      refine ⟨?_, filled, matched.quantity, nonneg, matched.typed⟩
      exact isOpen.trans (decide_eq_false complete.not_lt)
  | canceled => exact matched.close rfl rfl rfl rfl
  | rejected => exact matched.close rfl rfl rfl rfl
  | doneForDay => exact followed.elim
  | expired => exact followed.elim

/-- A slot matches one record under an id. -/
theorem unique (matched : Matches order working) {other : Working} (also : Matches order other)
    (sameId : working.clOrdId = other.clOrdId) : working = other := by
  obtain ⟨clOrdId, orderQty, cumQty, live⟩ := working
  obtain ⟨_, _, _, _⟩ := other
  cases sameId
  cases matched.life.symm.trans also.life
  cases matched.filled.symm.trans also.filled
  cases matched.quantity.symm.trans also.quantity
  rfl

end Matches

/-! ## Reports in flight -/

/-- A slot after the reports in flight about its id were booked. -/
def drain (arith : Arithmetic) (oid : List UInt8) (inFlight : List Notice) (order : Order) :
    Order :=
  (inFlight.filter fun notice => notice.clOrdId = oid).foldl
    (fun order notice => notice.rewrite arith order) order

theorem drain_append (arith : Arithmetic) (oid : List UInt8) (inFlight : List Notice)
    (notice : Notice) (order : Order) :
    drain arith oid (inFlight ++ [notice]) order =
      if notice.clOrdId = oid then notice.rewrite arith (drain arith oid inFlight order)
      else drain arith oid inFlight order := by
  unfold drain
  rw [List.filter_append, List.foldl_append]
  by_cases same : notice.clOrdId = oid <;> simp [same]

theorem drain_cons (arith : Arithmetic) (oid : List UInt8) (notice : Notice) (rest : List Notice)
    (order : Order) :
    drain arith oid (notice :: rest) order =
      drain arith oid rest
        (if notice.clOrdId = oid then notice.rewrite arith order else order) := by
  unfold drain
  by_cases same : notice.clOrdId = oid <;> simp [same]

theorem drain_of_unaddressed (arith : Arithmetic) {oid : List UInt8} {inFlight : List Notice}
    (unaddressed : ∀ notice ∈ inFlight, notice.clOrdId ≠ oid) (order : Order) :
    drain arith oid inFlight order = order := by
  unfold drain
  rw [List.filter_eq_nil_iff.mpr fun notice member => by simpa using unaddressed notice member]
  rfl

/-- An id in the table is found by its own text. -/
theorem fieldKey_ofList_key (order : Order) :
    fieldKey (StringView.ofList order.key) = order.key := text_ofList_text 8 _

/-- What `onMessage` makes of a report: nothing, or the event of its booked type. -/
theorem orders_onMessage {arith : Arithmetic} {gateway after : FIXGateway} {notice : Notice}
    {now : Nat} (returned : gateway.onMessage arith notice.report now = .returned after) :
    (MessageTranslator.bookedType notice.change.execType = none ∧
      after.orders = gateway.orders) ∨
    ∃ etype, MessageTranslator.bookedType notice.change.execType = some etype ∧
      after.orders = gateway.orders.applyEvent arith (MessageTranslator.reportedEvent arith
        notice.report etype notice.symbol notice.clOrdId notice.side) := by
  rcases FIXGateway.onMessage_eq_returned_iff.mp returned with
    ⟨dropped, rfl⟩ | ⟨event, translated, booked⟩
  · left
    obtain ⟨execType, hasType, unbooked⟩ :=
      MessageTranslator.fromExecutionReport_eq_none_iff.mp dropped
    cases hasType
    exact ⟨unbooked, rfl⟩
  · right
    obtain ⟨execType, etype, symbol, clOrdId, side, hasType, isBooked, hasSymbol, hasId, hasSide,
      rfl⟩ := MessageTranslator.fromExecutionReport_eq_some_iff.mp translated
    cases hasType
    cases hasSymbol
    cases hasId
    cases hasSide
    obtain ⟨_, _, _, rfl⟩ := FIXGateway.book_eq_ok_iff.mp booked
    exact ⟨etype, isBooked, rfl⟩

/-- `onMessage` takes up no new id. -/
theorem keys_onMessage {arith : Arithmetic} {gateway after : FIXGateway} {notice : Notice}
    {now : Nat} (returned : gateway.onMessage arith notice.report now = .returned after) :
    after.orders.keys = gateway.orders.keys := by
  rcases orders_onMessage returned with ⟨_, same⟩ | ⟨etype, isBooked, applied⟩
  · rw [same]
  · rw [applied, OrderManager.keys_applyEvent, if_neg]
    rintro ⟨isNew, _⟩
    rw [MessageTranslator.type_reportedEvent] at isNew
    exact MessageTranslator.ne_newOrder_of_bookedType isBooked isNew

/-- `onMessage` rewrites the slot that the report's id names, and no other. -/
theorem find?_onMessage {arith : Arithmetic} {gateway after : FIXGateway} {notice : Notice}
    {now : Nat} (returned : gateway.onMessage arith notice.report now = .returned after)
    (exactId : fieldKey (StringView.ofList notice.clOrdId) = notice.clOrdId) {oid : List UInt8}
    {order : Order} (found : gateway.orders.find? oid = some order) :
    after.orders.find? oid =
      some (if notice.clOrdId = oid then notice.rewrite arith order else order) := by
  rcases orders_onMessage returned with ⟨unbooked, same⟩ | ⟨etype, isBooked, applied⟩
  · rw [same, found, Notice.rewrite, unbooked, ite_self]
  · have addressed : (MessageTranslator.reportedEvent arith notice.report etype notice.symbol
        notice.clOrdId notice.side).orderId.string = notice.clOrdId := by
      rw [MessageTranslator.orderId_reportedEvent, string_strncpy]
      exact exactId
    rw [applied]
    split
    · rename_i same
      subst same
      rw [← addressed] at found
      have rewritten := OrderManager.find?_applyEvent_self arith _ found
      rw [addressed] at rewritten
      rw [rewritten, Notice.rewrite, isBooked]
    · rename_i differs
      rw [OrderManager.find?_applyEvent_of_ne arith _ (by rw [addressed]; exact Ne.symm differs),
        found]

/-! ## Both books along a run -/

namespace Market

/-- If the reports in flight were booked now, each order the exchange received would be as the
exchange has it. -/
structure InStep (arith : Arithmetic) (limits : RiskLimits) (market : Market) : Prop where
  session : FIXGateway.InSession arith limits EventLog.empty market.gateway
  tracked : ∀ working ∈ market.book, ∃ order,
    market.gateway.orders.find? working.clOrdId = some order ∧
      Matches (drain arith working.clOrdId market.inFlight order) working
  addressed : ∀ notice ∈ market.inFlight, ∃ working ∈ market.book,
    working.clOrdId = notice.clOrdId
  placed : ∀ oid ∈ market.gateway.orders.keys, ∃ working ∈ market.book, working.clOrdId = oid

theorem inStep_start (arith : Arithmetic) (limits : RiskLimits) :
    (start arith limits).InStep arith limits where
  session := .refl
  tracked _ member := (nomatch member)
  addressed _ member := (nomatch member)
  placed _ member := (nomatch member)

namespace InStep

variable {arith : Arithmetic} {limits : RiskLimits} {market : Market}

/-- The ids of the exchange's book are ids of the manager, in full. -/
theorem exactId (inStep : market.InStep arith limits) {working : Working}
    (member : working ∈ market.book) :
    fieldKey (StringView.ofList working.clOrdId) = working.clOrdId := by
  obtain ⟨order, found, _⟩ := inStep.tracked working member
  rw [← (SlotTable.find?_eq_some_iff.mp found).2]
  exact fieldKey_ofList_key order

/-- The exchange changes one order; its report is booked last. -/
theorem change (inStep : market.InStep arith limits) {working : Working} {notice : Notice}
    (member : working ∈ market.book) (sameId : notice.clOrdId = working.clOrdId)
    (live : working.live = true) (allowed : working.Allows notice.change)
    (followed : notice.change.Followed) : (market.change notice).InStep arith limits := by
  have sameIds : ∀ other : Working,
      (if other.clOrdId = notice.clOrdId then other.undergo notice.change else other).clOrdId =
        other.clOrdId := by
    intro other
    split
    · exact Working.clOrdId_undergo _ _
    · rfl
  refine ⟨inStep.session, ?_, ?_, ?_⟩
  · intro changed inBook
    obtain ⟨before, beforeMem, rfl⟩ := List.mem_map.mp inBook
    obtain ⟨order, found, matched⟩ := inStep.tracked before beforeMem
    refine ⟨order, by rw [sameIds]; exact found, ?_⟩
    rw [sameIds]
    change Matches (drain arith _ (market.inFlight ++ [notice]) order) _
    rw [drain_append]
    by_cases same : before.clOrdId = notice.clOrdId
    · -- An id has one slot, and a slot matches one record.
      obtain ⟨slot, slotFound, slotMatched⟩ := inStep.tracked working member
      have sameId : before.clOrdId = working.clOrdId := same.trans sameId
      rw [← sameId, found] at slotFound
      cases slotFound
      rw [← sameId] at slotMatched
      cases matched.unique slotMatched sameId
      rw [if_pos same, if_pos same.symm]
      exact matched.change live allowed followed
    · rw [if_neg same, if_neg (Ne.symm same)]
      exact matched
  · intro other inQueue
    have inBook : ∃ record ∈ market.book, record.clOrdId = other.clOrdId := by
      rcases List.mem_append.mp inQueue with old | new
      · exact inStep.addressed other old
      · cases List.mem_singleton.mp new
        exact ⟨working, member, sameId.symm⟩
    obtain ⟨record, recordMem, recordId⟩ := inBook
    exact ⟨_, List.mem_map_of_mem recordMem, (sameIds record).trans recordId⟩
  · intro oid inTable
    obtain ⟨record, recordMem, recordId⟩ := inStep.placed oid inTable
    exact ⟨_, List.mem_map_of_mem recordMem, (sameIds record).trans recordId⟩

/-- The gateway books the next report. -/
theorem process (inStep : market.InStep arith limits) {notice : Notice} {rest : List Notice}
    {after : FIXGateway} {now : Nat} (next : market.inFlight = notice :: rest)
    (returned : market.gateway.onMessage arith notice.report now = .returned after) :
    InStep arith limits { market with gateway := after, inFlight := rest } := by
  have queued : notice ∈ market.inFlight := by
    rw [next]
    exact List.mem_cons_self
  obtain ⟨addressee, addresseeMem, addresseeId⟩ := inStep.addressed notice queued
  have exactId := inStep.exactId addresseeMem
  rw [addresseeId] at exactId
  refine ⟨inStep.session.tail (.fromApp (.executionReport notice.report) now returned), ?_, ?_, ?_⟩
  · intro working member
    obtain ⟨order, found, matched⟩ := inStep.tracked working member
    rw [next, drain_cons] at matched
    exact ⟨_, find?_onMessage returned exactId found, matched⟩
  · intro other inQueue
    apply inStep.addressed other
    rw [next]
    exact List.mem_cons_of_mem _ inQueue
  · intro oid inTable
    change oid ∈ after.orders.keys at inTable
    rw [keys_onMessage returned] at inTable
    exact inStep.placed oid inTable

/-- A call that leaves the order table alone. -/
theorem of_orders_eq (inStep : market.InStep arith limits) {after : FIXGateway}
    (session : FIXGateway.InSession arith limits EventLog.empty after)
    (same : after.orders = market.gateway.orders) :
    InStep arith limits { market with gateway := after } := by
  refine ⟨session, fun working member => ?_, inStep.addressed, fun oid inTable => ?_⟩
  · obtain ⟨order, found, matched⟩ := inStep.tracked working member
    exact ⟨order, by rw [same]; exact found, matched⟩
  · rw [same] at inTable
    exact inStep.placed oid inTable

/-- No report in flight is about an id that is not in the table. -/
theorem unaddressed (inStep : market.InStep arith limits) {oid : List UInt8}
    (isNew : market.gateway.orders.find? oid = none) :
    ∀ notice ∈ market.inFlight, notice.clOrdId ≠ oid := by
  rintro notice queued rfl
  obtain ⟨working, member, sameId⟩ := inStep.addressed notice queued
  obtain ⟨order, found, _⟩ := inStep.tracked working member
  rw [sameId, isNew] at found
  cases found

/-- An order that was recorded is in step on arrival. -/
theorem record (inStep : market.InStep arith limits) {args : FIXGateway.SendArgs}
    (typed : args.qty < 2 ^ 31) (slot : market.gateway.orders.orderCount < maxOrders)
    (isNew : market.gateway.orders.find? (market.gateway.newOrderEvent args).orderId.string = none)
    {after : FIXGateway} (session : FIXGateway.InSession arith limits EventLog.empty after)
    (orders : after.orders =
      market.gateway.orders.applyEvent arith (market.gateway.newOrderEvent args)) :
    let message := MessageTranslator.toNewOrderSingle (market.gateway.newOrderEvent args)
    InStep arith limits { market with
      gateway := after
      book := market.book ++ [.received message] } := by
  intro message
  refine ⟨session, fun working member => ?_, fun notice queued => ?_, fun oid inTable => ?_⟩
  · rw [orders]
    rcases List.mem_append.mp member with old | new
    · obtain ⟨order, found, matched⟩ := inStep.tracked working old
      have differs : working.clOrdId ≠ (market.gateway.newOrderEvent args).orderId.string := by
        intro same
        rw [same, isNew] at found
        cases found
      exact ⟨order, (OrderManager.find?_applyEvent_of_ne arith _ differs).trans found, matched⟩
    · cases List.mem_singleton.mp new
      refine ⟨_, (FIXGateway.find?_recorded isNew).trans (if_pos slot), ?_⟩
      change Matches (drain arith (market.gateway.newOrderEvent args).orderId.string
        market.inFlight _) _
      rw [drain_of_unaddressed arith (inStep.unaddressed isNew)]
      exact ⟨rfl, Int.cast_zero, rfl, le_refl 0, typed⟩
  · obtain ⟨working, member, sameId⟩ := inStep.addressed notice queued
    exact ⟨working, List.mem_append_left _ member, sameId⟩
  · rw [orders, OrderManager.keys_applyEvent] at inTable
    have known : oid ∈ market.gateway.orders.keys ∨ oid = message.clOrdId := by
      split at inTable
      · exact (List.mem_append.mp inTable).imp_right List.mem_singleton.mp
      · exact .inl inTable
    rcases known with old | rfl
    · obtain ⟨working, member, sameId⟩ := inStep.placed oid old
      exact ⟨working, List.mem_append_left _ member, sameId⟩
    · exact ⟨_, List.mem_append_right _ List.mem_cons_self, rfl⟩

/-- A call that hands an order over finds its session. -/
theorem send (inStep : market.InStep arith limits) (typed : limits.maxOrderQty < 2 ^ 31)
    (args : FIXGateway.SendArgs) (now : Nat) (sessionFound : Bool)
    (slot : market.gateway.orders.orderCount < maxOrders)
    (delivered : ∀ message,
      (market.gateway.sendOrder arith args now sessionFound).handed = some message →
        sessionFound = true) :
    (market.send arith args now sessionFound).InStep arith limits := by
  have session := inStep.session.tail (.sendOrder args now sessionFound)
  unfold Market.send
  rcases FIXGateway.sendOrder_cases arith market.gateway args now sessionFound with
    ⟨_, blocked⟩ | ⟨_, _, stopped⟩ | ⟨log, accepted, room, _, sent⟩
  · rw [blocked] at session ⊢
    simpa using inStep.of_orders_eq session rfl
  · rw [stopped] at session ⊢
    simpa using inStep.of_orders_eq session rfl
  · have found : sessionFound = true := delivered _ (by rw [sent])
    subst found
    rw [sent] at session ⊢
    have bounded := (RiskChecker.check_eq_pass_iff.mp accepted.2).1
    rw [FIXGateway.InSession.limits_eq inStep.session] at bounded
    exact inStep.record (bounded.trans_lt typed) slot
      (FIXGateway.isNew_newOrderEvent inStep.session room args) session rfl

/-- Every move of either party keeps the books in step, as long as the exchange makes only
changes that the gateway can follow and every order arrives. -/
theorem step (inStep : market.InStep arith limits) (typed : limits.maxOrderQty < 2 ^ 31)
    {after : Market} (move : Step arith .followable market after) :
    after.InStep arith limits := by
  cases move with
  | send args now sessionFound slot delivered =>
      exact inStep.send typed args now sessionFound slot delivered
  | change notice member sameId live allowed followed =>
      exact inStep.change member sameId live allowed followed
  | process now next returned => exact inStep.process next returned
  | onLogon => exact inStep.of_orders_eq (inStep.session.tail .onLogon) rfl
  | onLogout => exact inStep.of_orders_eq (inStep.session.tail .onLogout) rfl

/-- With nothing in flight, being in step is agreement. -/
theorem agreement (inStep : market.InStep arith limits) (drained : market.inFlight = []) :
    market.Agreement := by
  refine ⟨fun working member => ?_, fun order inTable isOpen => ?_⟩
  · obtain ⟨order, found, matched⟩ := inStep.tracked working member
    rw [drained] at matched
    refine ⟨order, ?_, matched.life⟩
    rw [OrderManager.find_eq_find?, inStep.exactId member, found]
  · obtain ⟨working, member, sameId⟩ := inStep.placed order.key (List.mem_map_of_mem inTable)
    obtain ⟨slot, found, matched⟩ := inStep.tracked working member
    rw [drained] at matched
    rw [sameId, SlotTable.find?_eq_some_iff.mpr ⟨inTable, rfl⟩] at found
    cases found
    exact ⟨working, member, sameId, matched.life.symm.trans isOpen⟩

end InStep

/-- The books are in step along the whole run. -/
theorem inStep_of_run {arith : Arithmetic} {limits : RiskLimits} {market : Market}
    (typed : limits.maxOrderQty < 2 ^ 31)
    (run : Relation.ReflTransGen (Step arith .followable) (start arith limits) market) :
    market.InStep arith limits := by
  induction run with
  | refl => exact inStep_start arith limits
  | tail _ move ih => exact ih.step typed move

/-- Whenever all reports so far have been processed, the manager's open orders are the live
orders of the exchange, in every run whose orders arrive, end in a fill, a cancel or a reject
and are filled in whole shares. -/
theorem agreement_when_drained {arith : Arithmetic} {limits : RiskLimits} {market : Market}
    (typed : limits.maxOrderQty < 2 ^ 31)
    (run : Relation.ReflTransGen (Step arith .followable) (start arith limits) market)
    (drained : market.inFlight = []) : market.Agreement :=
  (inStep_of_run typed run).agreement drained

/-- An order sent, changed once at the exchange, and the report processed. -/
def afterChange (change : Change) : Market :=
  let notice : Notice := ⟨ascii "ORD0", change, ascii "AAPL", '1'⟩
  let sent := (⟨FIXGateway.connectedGateway, [], []⟩ : Market).send .wrapping
    FIXGateway.sampleArgs 0 true
  { sent.change notice with
    gateway := sent.gateway.delivered notice.report
    inFlight := [] }

theorem run_afterChange {conduct : Conduct} {change : Change}
    (allowed : (Working.received (MessageTranslator.toNewOrderSingle
      (FIXGateway.connectedGateway.newOrderEvent FIXGateway.sampleArgs))).Allows change)
    (delivers : conduct.delivers true) (followed : conduct.follows change)
    (survived : ((⟨FIXGateway.connectedGateway, [], []⟩ : Market).send .wrapping
      FIXGateway.sampleArgs 0 true).gateway.onMessage .wrapping
        (Notice.report ⟨ascii "ORD0", change, ascii "AAPL", '1'⟩) 0 =
      .returned (afterChange change).gateway) :
    Relation.ReflTransGen (Step .wrapping conduct) (start .wrapping {}) (afterChange change) := by
  have connected : Relation.ReflTransGen (Step .wrapping conduct) (start .wrapping {})
      ⟨FIXGateway.connectedGateway, [], []⟩ := .single .onLogon
  have sent := connected.tail (.send FIXGateway.sampleArgs 0 true (by decide) fun _ _ => delivers)
  have changed := sent.tail (.change ⟨ascii "ORD0", change, ascii "AAPL", '1'⟩
    List.mem_cons_self rfl rfl allowed followed)
  exact changed.tail (.process 0 rfl survived)

/-- A filled order is closed in both books. -/
theorem agreement_when_drained_filled : (afterChange (.fill 1 175)).Agreement := by
  have complete : (0 : ℚ) + 1 = ((1 : Int) : ℚ) := by norm_num
  exact agreement_when_drained (by decide)
    (run_afterChange ⟨by decide, by decide, complete⟩ rfl rfl rfl) rfl

/-- An order that expired at the exchange stays open in the manager. -/
theorem expired_order_stays_open :
    ¬∀ (limits : RiskLimits) (market : Market), limits.maxOrderQty < 2 ^ 31 →
      Relation.ReflTransGen (Step .wrapping .any) (start .wrapping limits) market →
      market.inFlight = [] → market.Agreement := by
  intro always
  have agreed := always {} (afterChange .expired) (by decide)
    (run_afterChange trivial trivial trivial rfl) rfl
  obtain ⟨order, found, dead⟩ := agreed.received _ List.mem_cons_self
  have stillOpen : ((afterChange .expired).gateway.orders.find
      (StringView.ofList (ascii "ORD0"))).map Order.isOpen = some true := by decide +kernel
  change (afterChange .expired).gateway.orders.find (StringView.ofList (ascii "ORD0")) = _ at found
  rw [found, Option.map_some, dead] at stillOpen
  cases stillOpen

end Market

end Hft.Gateway
