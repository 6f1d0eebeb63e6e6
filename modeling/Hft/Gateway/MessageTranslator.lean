import Hft.EventLog
import Hft.Logical.Arithmetic
import Mathlib.Data.Int.Log
import Mathlib.Data.Rat.Floor

/-!
# FIX messages and their translation

A FIX message is the fields it carries. A getter on an absent field throws
`FieldNotFound`; a present field is returned as it was set. Quantities and prices
travel as `double`s, which are rationals with an explicit rounding after each
operation the translator performs on them.
-/

namespace Hft.Gateway

open Logical

/-! ## Doubles -/

/-- Nearest integer, ties to even. -/
def roundHalfEven (value : ℚ) : Int :=
  let low := ⌊value⌋
  let above := value - low
  if above < 1 / 2 then low
  else if 1 / 2 < above then low + 1
  else if low % 2 = 0 then low else low + 1

/-- The `double` nearest to a real result, ties to even. Overflow to infinity is left
out: every conversion of such a value to an integer is undefined. -/
def roundDouble (value : ℚ) : ℚ :=
  let exponent := max (Int.log 2 |value| - 52) (-1074)
  roundHalfEven (value / 2 ^ exponent) * 2 ^ exponent

/-- `static_cast` to a wide integer: truncation toward zero. -/
def truncate (value : ℚ) : Int := value.num.tdiv value.den

/-- `to_fixed`. -/
def toFixed (arith : Arithmetic) (price : ℚ) : Int :=
  arith.int64 (truncate (roundDouble (price * priceScale)))

/-- `from_fixed`. -/
def fromFixed (priceFp : Int) : ℚ := roundDouble (roundDouble priceFp / priceScale)

/-! ## Messages -/

/-- The fields of an inbound `ExecutionReport` that any modelled code looks at. -/
structure ExecutionReport where
  execTransType : Option Char := none
  execType : Option Char := none
  clOrdId : Option (List UInt8) := none
  origClOrdId : Option (List UInt8) := none
  symbol : Option (List UInt8) := none
  side : Option Char := none
  lastShares : Option ℚ := none
  lastPx : Option ℚ := none
deriving DecidableEq

/-- An outbound `NewOrderSingle`. -/
structure NewOrderSingle where
  clOrdId : List UInt8
  handlInst : Char
  symbol : List UInt8
  side : Char
  ordType : Char
  orderQty : ℚ
  price : Option ℚ
  timeInForce : Char
deriving DecidableEq

/-- An outbound `OrderCancelRequest`. -/
structure OrderCancelRequest where
  origClOrdId : List UInt8
  clOrdId : List UInt8
  symbol : List UInt8
  side : Char
deriving DecidableEq

/-- `Message::get`. -/
def getField {α : Type} (field : Option α) : Except Thrown α :=
  match field with
  | some value => .ok value
  | none => .error .fieldNotFound

/-- `FIX::Side_BUY` for a buy and `FIX::Side_SELL` for everything else. -/
def sideField (side : Side) : Char := if side = .buy then '1' else '2'

namespace MessageTranslator

/-- The `ExecType` switch: partial fill, fill, cancel and reject are booked. -/
def bookedType (execType : Char) : Option EventType :=
  if execType = '1' then some .partialFill
  else if execType = '2' then some .fullFill
  else if execType = '4' then some .cancel
  else if execType = '8' then some .reject
  else none

/-- The fill fields of a report, which are taken only when both are present. -/
def withFill (arith : Arithmetic) (report : ExecutionReport) (event : OrderEvent) : OrderEvent :=
  match report.lastShares, report.lastPx with
  | some lastQty, some lastPx =>
      { event with
        fillQty := arith.int32 (truncate lastQty)
        fillPrice := toFixed arith lastPx }
  | _, _ => event

/-- The fields every booked report has. -/
def reportHeader (etype : EventType) (symbol clOrdId : List UInt8) (side : Char) : OrderEvent :=
  { OrderEvent.zero with
    type := etype
    symbol := strncpy (Pointer.ofList symbol) 8
    orderId := strncpy (Pointer.ofList clOrdId) 8
    side := if side = '1' then .buy else .sell }

/-- The event built from the fields of a booked report. -/
def reportedEvent (arith : Arithmetic) (report : ExecutionReport) (etype : EventType)
    (symbol clOrdId : List UInt8) (side : Char) : OrderEvent :=
  if etype = .partialFill ∨ etype = .fullFill then
    withFill arith report (reportHeader etype symbol clOrdId side)
  else reportHeader etype symbol clOrdId side

def fromExecutionReport (arith : Arithmetic) (report : ExecutionReport) :
    Except Thrown (Option OrderEvent) := do
  let execType ← getField report.execType
  match bookedType execType with
  | none => return none
  | some etype =>
      let symbol ← getField report.symbol
      let clOrdId ← getField report.clOrdId
      let side ← getField report.side
      return some (reportedEvent arith report etype symbol clOrdId side)

def toNewOrderSingle (event : OrderEvent) : NewOrderSingle where
  clOrdId := event.orderId.string
  handlInst := '1'
  symbol := event.symbol.string
  side := sideField event.side
  ordType := '2'
  orderQty := event.qty
  price := some (fromFixed event.price)
  timeInForce := '0'

def toCancelRequest (original : OrderEvent) (newClOrdId : List UInt8) : OrderCancelRequest where
  origClOrdId := original.orderId.string
  clOrdId := newClOrdId
  symbol := original.symbol.string
  side := sideField original.side

/-! ## What a translated report carries -/

/-- A report is booked exactly when its `ExecType` is one of the four and the symbol,
the id and the side are there. -/
theorem fromExecutionReport_eq_some_iff {arith : Arithmetic} {report : ExecutionReport}
    {event : OrderEvent} :
    fromExecutionReport arith report = .ok (some event) ↔
      ∃ execType etype symbol clOrdId side, report.execType = some execType ∧
        bookedType execType = some etype ∧ report.symbol = some symbol ∧
        report.clOrdId = some clOrdId ∧ report.side = some side ∧
        event = reportedEvent arith report etype symbol clOrdId side := by
  unfold fromExecutionReport getField
  cases report.execType with
  | none => simp [bind, Except.bind]
  | some execType =>
      cases booked : bookedType execType with
      | none => simp [bind, Except.bind, booked, pure, Except.pure]
      | some etype =>
          cases report.symbol <;> cases report.clOrdId <;> cases report.side <;>
            simp [bind, Except.bind, booked, pure, Except.pure, eq_comm]

/-- A report is passed over exactly when its `ExecType` is none of the four. -/
theorem fromExecutionReport_eq_none_iff {arith : Arithmetic} {report : ExecutionReport} :
    fromExecutionReport arith report = .ok none ↔
      ∃ execType, report.execType = some execType ∧ bookedType execType = none := by
  unfold fromExecutionReport getField
  cases report.execType with
  | none => simp [bind, Except.bind]
  | some execType =>
      cases booked : bookedType execType with
      | none => simp [bind, Except.bind, booked, pure, Except.pure]
      | some etype =>
          cases report.symbol <;> cases report.clOrdId <;> cases report.side <;>
            simp [bind, Except.bind, booked, pure, Except.pure]

section ReportedEvent

variable (arith : Arithmetic) (report : ExecutionReport) (etype : EventType)
  (symbol clOrdId : List UInt8) (side : Char)

/-- The fill fields are all that `withFill` can add to the header. -/
theorem reportedEvent_eq_header :
    ∃ qty price, reportedEvent arith report etype symbol clOrdId side =
      { reportHeader etype symbol clOrdId side with fillQty := qty, fillPrice := price } := by
  unfold reportedEvent
  split
  · unfold withFill
    split
    · exact ⟨_, _, rfl⟩
    · exact ⟨_, _, rfl⟩
  · exact ⟨_, _, rfl⟩

@[simp] theorem type_reportedEvent :
    (reportedEvent arith report etype symbol clOrdId side).type = etype := by
  obtain ⟨qty, price, equal⟩ := reportedEvent_eq_header arith report etype symbol clOrdId side
  rw [equal]
  rfl

@[simp] theorem orderId_reportedEvent :
    (reportedEvent arith report etype symbol clOrdId side).orderId =
      strncpy (Pointer.ofList clOrdId) 8 := by
  obtain ⟨qty, price, equal⟩ := reportedEvent_eq_header arith report etype symbol clOrdId side
  rw [equal]
  rfl

@[simp] theorem symbol_reportedEvent :
    (reportedEvent arith report etype symbol clOrdId side).symbol =
      strncpy (Pointer.ofList symbol) 8 := by
  obtain ⟨qty, price, equal⟩ := reportedEvent_eq_header arith report etype symbol clOrdId side
  rw [equal]
  rfl

@[simp] theorem side_reportedEvent :
    (reportedEvent arith report etype symbol clOrdId side).side =
      if side = '1' then .buy else .sell := by
  obtain ⟨qty, price, equal⟩ := reportedEvent_eq_header arith report etype symbol clOrdId side
  rw [equal]
  rfl

theorem isFill_reportedEvent :
    (reportedEvent arith report etype symbol clOrdId side).isFill =
      (etype = .partialFill || etype = .fullFill) := by
  simp [OrderEvent.isFill]

/-- A fill report with both fill fields carries its quantity into the event. -/
theorem fillQty_reportedEvent {shares price : ℚ}
    (isFill : etype = .partialFill ∨ etype = .fullFill)
    (lastShares : report.lastShares = some shares) (lastPx : report.lastPx = some price) :
    (reportedEvent arith report etype symbol clOrdId side).fillQty =
      arith.int32 (truncate shares) := by
  simp [reportedEvent, withFill, isFill, lastShares, lastPx]

end ReportedEvent

/-- The switch never yields a `NewOrder`. -/
theorem ne_newOrder_of_bookedType {execType : Char} {etype : EventType}
    (booked : bookedType execType = some etype) : etype ≠ .newOrder := by
  unfold bookedType at booked
  rintro rfl
  split_ifs at booked <;> simp at booked

/-- A translated report is never a `NewOrder`. -/
theorem type_ne_newOrder {arith : Arithmetic} {report : ExecutionReport} {event : OrderEvent}
    (translated : fromExecutionReport arith report = .ok (some event)) :
    event.type ≠ .newOrder := by
  obtain ⟨execType, etype, symbol, clOrdId, side, _, booked, _, _, _, rfl⟩ :=
    fromExecutionReport_eq_some_iff.mp translated
  rw [type_reportedEvent]
  exact ne_newOrder_of_bookedType booked

/-- The two fill types of a report are booked as fills. -/
theorem isFill_of_execType {arith : Arithmetic} {report : ExecutionReport} {event : OrderEvent}
    (execType : report.execType = some '1' ∨ report.execType = some '2')
    (translated : fromExecutionReport arith report = .ok (some event)) : event.isFill = true := by
  obtain ⟨_, etype, _, _, _, hasType, booked, _, _, _, rfl⟩ :=
    fromExecutionReport_eq_some_iff.mp translated
  rw [isFill_reportedEvent]
  rw [hasType] at execType
  rcases execType with same | same
  · cases same
    cases booked
    rfl
  · cases same
    cases booked
    rfl

end MessageTranslator

/-- The event that is booked for a report, if one is. -/
def bookedEvent (arith : Arithmetic) (report : ExecutionReport) : Option OrderEvent :=
  match MessageTranslator.fromExecutionReport arith report with
  | .ok event => event
  | .error _ => none

end Hft.Gateway
