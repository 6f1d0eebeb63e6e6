import Hft.Gateway.Tracking

/-!
# An order on the wire and its reports

An id and a symbol leave the gateway through 8-byte fields and come back in reports that
echo what was sent. `order_id_faithful_unique_iff` says which ids survive the way out,
and `echoed_report_hits_order` that a report on a tracked order finds that order's slot
and, if it is a fill, the position of the symbol the caller passed, whatever the length
of either.
-/

namespace Hft

open Logical

namespace OrderEvent

@[simp] theorem chars_orderIdView (event : OrderEvent) :
    event.orderIdView.chars = event.orderId.string := StringView.chars_strnlen _ 8

end OrderEvent

namespace Gateway.FIXGateway

variable {arith : Arithmetic} {gateway : FIXGateway} {args : SendArgs} {now : Nat}
  {sessionFound : Bool} {oid : List UInt8} {message : NewOrderSingle}

/-- A message that was handed to the session is the recorded order. -/
theorem sendOrder_of_handed
    (handed : (gateway.sendOrder arith args now sessionFound).handed = some message) :
    gateway.Accepts arith args ∧ gateway.log.size < maxEvents ∧
      message = MessageTranslator.toNewOrderSingle (gateway.newOrderEvent args) ∧
      (gateway.sendOrder arith args now sessionFound).gateway.log.events = gateway.log.events ++
        [EventLog.stamp gateway.log.size now (gateway.newOrderEvent args)] := by
  rcases sendOrder_cases arith gateway args now sessionFound with
    ⟨_, blocked⟩ | ⟨_, _, stopped⟩ | ⟨log, accepted, room, events, sent⟩
  · rw [blocked] at handed
    cases handed
  · rw [stopped] at handed
    cases handed
  · rw [sent] at handed ⊢
    cases handed
    exact ⟨accepted, room, rfl, events⟩

@[simp] theorem clOrdId_toNewOrderSingle (gateway : FIXGateway) (args : SendArgs) :
    (MessageTranslator.toNewOrderSingle (gateway.newOrderEvent args)).clOrdId =
      orderKey gateway.orderCounter := orderId_newOrderEvent gateway args

/-! ## The way out -/

/-- The id a call returned is the one on the wire and the one in the log. -/
def ReportedFaithfully (before : FIXGateway) (outcome : SendOutcome) (oid : List UInt8) : Prop :=
  ∃ message event, outcome.handed = some message ∧
    outcome.gateway.log.events = before.log.events ++ [event] ∧
    message.clOrdId = oid ∧ event.orderIdView.chars = oid

/-- No call with a smaller counter puts the same id on the wire. -/
def Unrepeated (arith : Arithmetic) (before : FIXGateway) (outcome : SendOutcome) : Prop :=
  ∀ (earlier : FIXGateway) (args : SendArgs) (now : Nat) (sessionFound : Bool)
    (message message' : NewOrderSingle), earlier.orderCounter < before.orderCounter →
    outcome.handed = some message →
    (earlier.sendOrder arith args now sessionFound).handed = some message' →
    message'.clOrdId ≠ message.clOrdId

/-- The wire and the log carry the whole id exactly for numbers of at most five digits. -/
theorem orderKey_eq_orderId_iff {number : Nat} :
    orderKey number = orderId number ↔ number < 100000 := by
  constructor
  · intro whole
    rw [orderKey_eq, orderId, List.append_cancel_left_eq] at whole
    have lengths := congrArg List.length whole
    rw [List.length_take] at lengths
    exact (length_toDecimal_le_iff (by decide)).mp (show (toDecimal number).length ≤ 5 by omega)
  · exact orderKey_eq_orderId

/-- A number with more than five digits shares its 8 bytes with a smaller one. -/
theorem exists_smaller_orderKey {number : Nat} (large : 100000 ≤ number) :
    ∃ smaller < number, orderKey smaller = orderKey number := by
  obtain ⟨leading, _, bound, same⟩ := exists_toDecimal_eq_take number (by decide : 0 < 5)
  refine ⟨leading, by omega, ?_⟩
  have few := (length_toDecimal_le_iff (by decide)).mpr bound
  rw [orderKey_eq, orderKey_eq, List.take_of_length_le few, same]

/-- The check does not look at the order counter. -/
theorem handed_renumbered (accepted : gateway.Accepts arith args)
    (room : gateway.log.size < maxEvents) (number now : Nat) (sessionFound : Bool) :
    ∃ message, ({ gateway with orderCounter := number }.sendOrder arith args now
      sessionFound).handed = some message ∧ message.clOrdId = orderKey number := by
  rcases sendOrder_cases arith { gateway with orderCounter := number } args now sessionFound with
    ⟨refused, _⟩ | ⟨_, full, _⟩ | ⟨log, _, _, _, sent⟩
  · exact absurd accepted refused
  · exact absurd room (Nat.not_lt.mpr full)
  · rw [sent]
    exact ⟨_, rfl, clOrdId_toNewOrderSingle _ args⟩

/-- Both halves of the promise about order ids hold exactly while the counter has at most
five digits: from 100,000 on the id is cut on the wire and in the log, and what is left
of it was sent before. -/
theorem order_id_faithful_unique_iff
    (returned : (gateway.sendOrder arith args now sessionFound).result = .ok oid)
    (assigned : oid ≠ []) :
    (ReportedFaithfully gateway (gateway.sendOrder arith args now sessionFound) oid ↔
      gateway.orderCounter < 100000) ∧
    (Unrepeated arith gateway (gateway.sendOrder arith args now sessionFound) ↔
      gateway.orderCounter < 100000) := by
  obtain ⟨_, rfl, _, handed⟩ := sendOrder_of_returned returned assigned
  obtain ⟨accepted, room, _, events⟩ := sendOrder_of_handed handed
  refine ⟨⟨?_, ?_⟩, ⟨?_, ?_⟩⟩
  · rintro ⟨message, event, sent, _, faithful, _⟩
    rw [handed] at sent
    cases sent
    rw [clOrdId_toNewOrderSingle] at faithful
    exact orderKey_eq_orderId_iff.mp faithful
  · intro short
    refine ⟨_, _, handed, events, ?_, ?_⟩
    · rw [clOrdId_toNewOrderSingle]
      exact orderKey_eq_orderId short
    · rw [OrderEvent.chars_orderIdView]
      exact (orderId_newOrderEvent gateway args).trans (orderKey_eq_orderId short)
  · intro unrepeated
    by_contra long
    obtain ⟨smaller, below, same⟩ := exists_smaller_orderKey (Nat.not_lt.mp long)
    obtain ⟨message, sent, key⟩ := handed_renumbered accepted room smaller now sessionFound
    apply unrepeated _ _ _ _ _ message below handed sent
    rw [key, clOrdId_toNewOrderSingle, same]
  · intro short earlier args' now' sessionFound' message message' below sent sent' same
    rw [handed] at sent
    cases sent
    obtain ⟨_, _, rfl, _⟩ := sendOrder_of_handed sent'
    rw [clOrdId_toNewOrderSingle, clOrdId_toNewOrderSingle, orderKey_eq_orderId (by omega),
      orderKey_eq_orderId short] at same
    have := orderId_injective same
    omega

/-- The first order of a session is numbered in full and like no other. -/
theorem order_id_faithful_unique_first :
    ReportedFaithfully connectedGateway (connectedGateway.sendOrder .wrapping sampleArgs 0 true)
      (ascii "ORD0") ∧
    Unrepeated .wrapping connectedGateway
      (connectedGateway.sendOrder .wrapping sampleArgs 0 true) :=
  have returned : (connectedGateway.sendOrder .wrapping sampleArgs 0 true).result =
      .ok (ascii "ORD0") := rfl
  have both := order_id_faithful_unique_iff returned (by decide)
  ⟨both.1.mpr (by decide), both.2.mpr (by decide)⟩

/-- A session that has numbered 100,000 orders. -/
def sixDigitGateway : FIXGateway := { connectedGateway with orderCounter := 100000 }

/-- Its next order goes out under the id of order 10,000. -/
theorem sixth_digit_cut_off :
    ¬∀ (gateway : FIXGateway) (args : SendArgs) (now : Nat) (sessionFound : Bool)
      (oid : List UInt8), (gateway.sendOrder .wrapping args now sessionFound).result = .ok oid →
      oid ≠ [] →
      ReportedFaithfully gateway (gateway.sendOrder .wrapping args now sessionFound) oid ∧
      Unrepeated .wrapping gateway (gateway.sendOrder .wrapping args now sessionFound) := by
  intro always
  obtain ⟨message, event, sent, _, faithful, _⟩ :=
    (always sixDigitGateway sampleArgs 0 true (ascii "ORD100000") rfl (by decide)).1
  have onWire : message.clOrdId = ascii "ORD10000" := by
    have handed : (sixDigitGateway.sendOrder .wrapping sampleArgs 0 true).handed =
        some (MessageTranslator.toNewOrderSingle (sixDigitGateway.newOrderEvent sampleArgs)) := rfl
    rw [handed] at sent
    cases sent
    decide
  rw [onWire] at faithful
  exact absurd faithful (by decide)

/-! ## The way back -/

/-- A report about an order repeats the id, the symbol and the side it was sent with. -/
structure Echoes (message : NewOrderSingle) (report : ExecutionReport) : Prop where
  clOrdId : report.clOrdId = some message.clOrdId
  symbol : report.symbol = some message.symbol
  side : report.side = some message.side

/-- The slots of the tracker after a fill, when the symbol has a position or can get one. -/
def FillBooked (arith : Arithmetic) (event : OrderEvent) (sym : StringView)
    (before after : PositionTracker) : Prop :=
  (∃ position, before.get sym = some position ∧
    after.get sym = some (position.applyFill arith event) ∧
    after.slots = before.slots.map fun slot =>
      if slot.key = fieldKey sym then slot.applyFill arith event else slot) ∨
  (before.get sym = none ∧
    after.get sym = some ((Position.zeroed (strncpy sym.data 8)).applyFill arith event) ∧
    after.slots = before.slots ++ [(Position.zeroed (strncpy sym.data 8)).applyFill arith event])

/-- A fill that carries a symbol's 8 bytes is booked on that symbol's position alone. -/
theorem fillBooked_applyEvent (arith : Arithmetic) {event : OrderEvent} {sym : StringView}
    (isFill : event.isFill = true) (onSymbol : event.symbol.string = fieldKey sym)
    (tracker : PositionTracker)
    (slot : tracker.get sym ≠ none ∨ tracker.symbolCount < maxSymbols) :
    FillBooked arith event sym tracker (tracker.applyEvent arith event) := by
  have sameField : strncpy event.symbolView.data 8 = strncpy sym.data 8 :=
    strncpy_congr onSymbol
  have key := PositionTracker.key_applyFill_zeroed arith event
  unfold FillBooked
  simp only [PositionTracker.get_eq_find?, ← onSymbol] at slot ⊢
  cases found : tracker.find? event.symbol.string with
  | some position =>
      refine .inl ⟨position, rfl,
        PositionTracker.find?_applyEvent_self arith tracker isFill found, ?_⟩
      rw [PositionTracker.applyEvent, if_pos isFill,
        SlotTable.upsert_of_found _ (key.symm ▸ found), SlotTable.update, key]
  | none =>
      rcases slot with present | room
      · exact absurd found present
      · refine .inr ⟨rfl, ?_, ?_⟩
        · rw [PositionTracker.find?_applyEvent_of_room arith tracker isFill found room, sameField]
        · rw [PositionTracker.applyEvent, if_pos isFill,
            SlotTable.slots_upsert_of_room _ (key.symm ▸ found) room, sameField]

variable (arith) in
/-- The event of an echoed report carries the order's id, symbol and side. -/
theorem reportedEvent_of_echo {report : ExecutionReport} {execType : Char} {etype : EventType}
    (echo : Echoes (MessageTranslator.toNewOrderSingle (gateway.newOrderEvent args)) report)
    (hasType : report.execType = some execType)
    (booked : MessageTranslator.bookedType execType = some etype) (sided : args.side ≠ .unset) :
    ∃ event, MessageTranslator.fromExecutionReport arith report = .ok (some event) ∧
      event.type = etype ∧ event.orderId.string = orderKey gateway.orderCounter ∧
      event.symbol.string = fieldKey args.symbol ∧ event.side = args.side ∧
      (etype = .partialFill ∨ etype = .fullFill → ∀ (shares : Int) (price : ℚ),
        report.lastShares = some (shares : ℚ) → report.lastPx = some price → InRange 32 shares →
        event.fillQty = shares) := by
  refine ⟨_, MessageTranslator.fromExecutionReport_eq_some_iff.mpr
    ⟨execType, etype, _, _, _, hasType, booked, echo.symbol, echo.clOrdId, echo.side, rfl⟩,
    MessageTranslator.type_reportedEvent .., ?_, ?_, ?_, ?_⟩
  · rw [MessageTranslator.orderId_reportedEvent, string_strncpy, clOrdId_toNewOrderSingle]
    exact text_ofList_text 8 (StringView.ofList (orderId gateway.orderCounter)).data
  · rw [MessageTranslator.symbol_reportedEvent, string_strncpy]
    have sent : (MessageTranslator.toNewOrderSingle (gateway.newOrderEvent args)).symbol =
        text 8 args.symbol.data := string_strncpy _ 8
    rw [sent]
    exact text_ofList_text 8 _
  · rw [MessageTranslator.side_reportedEvent]
    have sent : (MessageTranslator.toNewOrderSingle (gateway.newOrderEvent args)).side =
        sideField args.side := rfl
    rw [sent]
    cases side : args.side with
    | unset => exact absurd side sided
    | buy => rfl
    | sell => rfl
  · intro isFill shares price lastShares lastPx range
    rw [MessageTranslator.fillQty_reportedEvent arith report etype _ _ _ isFill lastShares lastPx,
      truncate, Rat.num_intCast, Rat.den_intCast]
    simpa using arith.int32_exact range

/-- A report that echoes what `send_order` put on the wire is booked on the order behind
the returned id and, if it is a fill, on the position of the symbol that was passed to
`send_order`; no other slot of either table changes. The state may be any later one that
still tracks the order. -/
theorem echoed_report_hits_order
    (returned : (gateway.sendOrder arith args now sessionFound).result = .ok oid)
    (assigned : oid ≠ []) (sided : args.side ≠ .unset)
    (handed : (gateway.sendOrder arith args now sessionFound).handed = some message)
    {report : ExecutionReport} (echo : Echoes message report) {execType : Char}
    (hasType : report.execType = some execType) (booked : execType ∈ ['1', '2', '4', '8'])
    {later : FIXGateway} {order : Order}
    (tracked : later.orders.find (StringView.ofList oid) = some order) :
    ∃ event, MessageTranslator.fromExecutionReport arith report = .ok (some event) ∧
      event.side = args.side ∧ (event.isFill = true ↔ execType = '1' ∨ execType = '2') ∧
      (later.orders.applyEvent arith event).find (StringView.ofList oid) =
        some (OrderManager.rewrite arith event order) ∧
      (later.orders.applyEvent arith event).slots = later.orders.slots.map (fun slot =>
        if slot.key = order.key then OrderManager.rewrite arith event slot else slot) ∧
      (event.isFill = false → later.tracker.applyEvent arith event = later.tracker) ∧
      (event.isFill = true →
        (∀ (shares : Int) (price : ℚ), report.lastShares = some (shares : ℚ) →
          report.lastPx = some price → InRange 32 shares → event.fillQty = shares) ∧
        (later.tracker.get args.symbol ≠ none ∨ later.tracker.symbolCount < maxSymbols →
          FillBooked arith event args.symbol later.tracker
            (later.tracker.applyEvent arith event))) := by
  obtain ⟨_, rfl, _⟩ := sendOrder_of_returned returned assigned
  obtain ⟨_, _, rfl, _⟩ := sendOrder_of_handed handed
  obtain ⟨etype, typeEq, fillType⟩ : ∃ etype,
      MessageTranslator.bookedType execType = some etype ∧
        (etype = .partialFill ∨ etype = .fullFill ↔ execType = '1' ∨ execType = '2') := by
    simp only [List.mem_cons, List.not_mem_nil, or_false] at booked
    rcases booked with rfl | rfl | rfl | rfl <;> exact ⟨_, rfl, by decide⟩
  obtain ⟨event, translated, type, id, symbol, side, quantity⟩ :=
    reportedEvent_of_echo arith echo hasType typeEq sided
  have isFill : event.isFill = true ↔ etype = .partialFill ∨ etype = .fullFill := by
    simp [OrderEvent.isFill, type]
  have found : later.orders.find? event.orderId.string = some order := by
    rw [id, ← tracked, OrderManager.find_eq_find?]
    rfl
  have key : order.key = event.orderId.string := (SlotTable.find?_eq_some_iff.mp found).2
  refine ⟨event, translated, side, isFill.trans fillType, ?_, ?_, ?_, ?_⟩
  · rw [OrderManager.find_eq_find?]
    have rewritten := OrderManager.find?_applyEvent_self arith later.orders found
    rwa [id] at rewritten
  · have notNew := MessageTranslator.type_ne_newOrder translated
    rw [OrderManager.applyEvent_of_ne_newOrder arith later.orders notNew, key]
    rfl
  · exact PositionTracker.applyEvent_of_not_fill arith later.tracker
  · intro fill
    exact ⟨quantity (isFill.mp fill), fillBooked_applyEvent arith fill symbol later.tracker⟩

/-- A symbol that fills its field to the last byte. -/
def eightByteArgs : SendArgs := { sampleArgs with symbol := StringView.ofList (ascii "GOOGL.US") }

/-- The state after an order on it. -/
def eightByteGateway : FIXGateway :=
  (connectedGateway.sendOrder .wrapping eightByteArgs 0 true).gateway

/-- The report that the order was filled. -/
def eightByteFill : ExecutionReport :=
  { filledReport (ascii "ORD0") with symbol := some (ascii "GOOGL.US") }

theorem echoed_report_hits_order_eight_bytes :
    ∃ event, MessageTranslator.fromExecutionReport .wrapping eightByteFill = .ok (some event) ∧
      event.fillQty = 1 ∧
      FillBooked .wrapping event eightByteArgs.symbol eightByteGateway.tracker
        (eightByteGateway.tracker.applyEvent .wrapping event) := by
  have echo : Echoes (MessageTranslator.toNewOrderSingle
      (connectedGateway.newOrderEvent eightByteArgs)) eightByteFill := by
    constructor <;> decide +kernel
  have returned : (connectedGateway.sendOrder .wrapping eightByteArgs 0 true).result =
      .ok (ascii "ORD0") := rfl
  have isTracked : (eightByteGateway.orders.find (StringView.ofList (ascii "ORD0"))).isSome := by
    decide +kernel
  obtain ⟨order, tracked⟩ := Option.isSome_iff_exists.mp isTracked
  obtain ⟨event, translated, _, isFill, _, _, _, fill⟩ :=
    echoed_report_hits_order returned (by decide) (by decide) rfl echo rfl (by decide) tracked
  obtain ⟨quantity, slots⟩ := fill (isFill.mpr (.inr rfl))
  exact ⟨event, translated, quantity 1 175 rfl rfl (by decide), slots (.inr (by decide +kernel))⟩

end Gateway.FIXGateway

end Hft
