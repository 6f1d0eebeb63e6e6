import Hft.Gateway.Session

/-!
# What an inbound message can do to the process

`fromApp` and `onMessage` are `noexcept`, and everything they call may throw: `crack` on a
type without a handler, the getters on an absent field, `append` on a full log. A throw
ends the process, so which messages are survived is a question about the message and the
fill level of the log, and `fromApp_survives_iff` answers it.
-/

namespace Hft.Gateway.FIXGateway

open Logical

/-- An `ExecutionReport` from which an event is booked. -/
def Bookable (arith : Arithmetic) (message : InboundMessage) : Prop :=
  ∃ report event, message = .executionReport report ∧
    MessageTranslator.fromExecutionReport arith report = .ok (some event)

/-- The call returns, and without something to book it leaves the components alone. -/
def Survives (arith : Arithmetic) (gateway : FIXGateway) (message : InboundMessage) (now : Nat) :
    Prop :=
  ∃ after, gateway.fromApp arith message now = .returned after ∧
    (¬Bookable arith message →
      after.log = gateway.log ∧ after.tracker = gateway.tracker ∧ after.orders = gateway.orders)

/-- An `ExecutionReport` with an `ExecType`; if that is one of the four booked ones, also
with a symbol, an id and a side, while the log has room. -/
def Deliverable (gateway : FIXGateway) : InboundMessage → Prop
  | .other _ => False
  | .executionReport report =>
      ∃ execType, report.execType = some execType ∧
        (execType ∈ ['1', '2', '4', '8'] →
          report.symbol.isSome ∧ report.clOrdId.isSome ∧ report.side.isSome ∧
            gateway.log.size < maxEvents)

theorem bookedType_ne_none_iff {execType : Char} :
    MessageTranslator.bookedType execType ≠ none ↔ execType ∈ ['1', '2', '4', '8'] := by
  unfold MessageTranslator.bookedType
  simp only [List.mem_cons, List.not_mem_nil, or_false]
  split_ifs <;> simp_all

/-- A report translates unless a getter throws. -/
theorem fromExecutionReport_eq_ok_iff (arith : Arithmetic) {report : ExecutionReport} :
    (∃ event, MessageTranslator.fromExecutionReport arith report = .ok event) ↔
      ∃ execType, report.execType = some execType ∧
        (execType ∈ ['1', '2', '4', '8'] →
          report.symbol.isSome ∧ report.clOrdId.isSome ∧ report.side.isSome) := by
  constructor
  · rintro ⟨event, translated⟩
    cases event with
    | none =>
        obtain ⟨execType, hasType, passed⟩ :=
          MessageTranslator.fromExecutionReport_eq_none_iff.mp translated
        exact ⟨execType, hasType, fun booked => absurd passed (bookedType_ne_none_iff.mpr booked)⟩
    | some event =>
        obtain ⟨execType, _, symbol, clOrdId, side, hasType, _, hasSymbol, hasId, hasSide, _⟩ :=
          MessageTranslator.fromExecutionReport_eq_some_iff.mp translated
        exact ⟨execType, hasType, fun _ => by simp [hasSymbol, hasId, hasSide]⟩
  · rintro ⟨execType, hasType, fields⟩
    cases booked : MessageTranslator.bookedType execType with
    | none =>
        exact ⟨none, MessageTranslator.fromExecutionReport_eq_none_iff.mpr
          ⟨execType, hasType, booked⟩⟩
    | some etype =>
        obtain ⟨hasSymbol, hasId, hasSide⟩ := fields (bookedType_ne_none_iff.mp (by simp [booked]))
        obtain ⟨symbol, symbolEq⟩ := Option.isSome_iff_exists.mp hasSymbol
        obtain ⟨clOrdId, idEq⟩ := Option.isSome_iff_exists.mp hasId
        obtain ⟨side, sideEq⟩ := Option.isSome_iff_exists.mp hasSide
        exact ⟨_, MessageTranslator.fromExecutionReport_eq_some_iff.mpr
          ⟨execType, etype, symbol, clOrdId, side, hasType, booked, symbolEq, idEq, sideEq, rfl⟩⟩

/-- A returning call changed nothing unless it had something to book. -/
theorem fromApp_frame {arith : Arithmetic} {gateway after : FIXGateway} {message : InboundMessage}
    {now : Nat} (returned : gateway.fromApp arith message now = .returned after)
    (nothing : ¬Bookable arith message) : after = gateway := by
  obtain same | ⟨report, event, isReport, translated, _⟩ := fromApp_cases returned
  · exact same
  · exact absurd ⟨report, event, isReport, translated⟩ nothing

/-- A report that passes every getter and finds room in the log is processed. -/
theorem exists_onMessage_of_deliverable (arith : Arithmetic) {gateway : FIXGateway}
    {report : ExecutionReport} (deliverable : gateway.Deliverable (.executionReport report))
    (now : Nat) : ∃ after, gateway.onMessage arith report now = .returned after := by
  obtain ⟨execType, hasType, fields⟩ := deliverable
  obtain ⟨booked, translated⟩ := (fromExecutionReport_eq_ok_iff arith).mpr
    ⟨execType, hasType, fun member =>
      ⟨(fields member).1, (fields member).2.1, (fields member).2.2.1⟩⟩
  cases booked with
  | none => exact ⟨gateway, onMessage_eq_returned_iff.mpr (.inl ⟨translated, rfl⟩)⟩
  | some event =>
      obtain ⟨_, etype, _, _, _, sameType, isBooked, _⟩ :=
        MessageTranslator.fromExecutionReport_eq_some_iff.mp translated
      rw [hasType] at sameType
      cases sameType
      have room := (fields (bookedType_ne_none_iff.mp (by simp [isBooked]))).2.2.2
      obtain ⟨after, bookedEvent⟩ := exists_book_of_room arith room now event
      exact ⟨after, onMessage_eq_returned_iff.mpr (.inr ⟨event, translated, bookedEvent⟩)⟩

/-- A processed report had every field it was asked for, and the log had room. -/
theorem deliverable_of_onMessage {arith : Arithmetic} {gateway after : FIXGateway}
    {report : ExecutionReport} {now : Nat}
    (returned : gateway.onMessage arith report now = .returned after) :
    gateway.Deliverable (.executionReport report) := by
  obtain ⟨passed, rfl⟩ | ⟨event, translated, booked⟩ := onMessage_eq_returned_iff.mp returned
  · obtain ⟨execType, hasType, notBooked⟩ :=
      MessageTranslator.fromExecutionReport_eq_none_iff.mp passed
    exact ⟨execType, hasType, fun member => absurd notBooked (bookedType_ne_none_iff.mpr member)⟩
  · obtain ⟨execType, hasType, fields⟩ :=
      (fromExecutionReport_eq_ok_iff arith).mp ⟨some event, translated⟩
    obtain ⟨_, room, _, _⟩ := book_eq_ok_iff.mp booked
    refine ⟨execType, hasType, fun member => ?_⟩
    obtain ⟨hasSymbol, hasId, hasSide⟩ := fields member
    exact ⟨hasSymbol, hasId, hasSide, room⟩

/-- Exactly the deliverable messages are survived. A message of any other type, a report
without its fields and a booked report on a full log each end the process. -/
theorem fromApp_survives_iff (arith : Arithmetic) (gateway : FIXGateway) (message : InboundMessage)
    (now : Nat) : Survives arith gateway message now ↔ gateway.Deliverable message := by
  cases message with
  | other msgType =>
      simp only [Deliverable, iff_false]
      rintro ⟨after, returned, _⟩
      cases returned
  | executionReport report =>
      constructor
      · rintro ⟨after, returned, _⟩
        exact deliverable_of_onMessage returned
      · intro deliverable
        obtain ⟨after, returned⟩ := exists_onMessage_of_deliverable arith deliverable now
        have delivered : gateway.fromApp arith (.executionReport report) now = .returned after :=
          returned
        refine ⟨after, delivered, fun nothing => ?_⟩
        rw [fromApp_frame delivered nothing]
        exact ⟨rfl, rfl, rfl⟩

/-- An `OrderCancelReject` ends the process of a gateway that has just connected. -/
theorem cancel_reject_terminates :
    ¬∀ (limits : RiskLimits) (log : EventLog) (gateway : FIXGateway) (message : InboundMessage)
      (now : Nat), Produced .wrapping log → InSession .wrapping limits log gateway →
      Survives .wrapping gateway message now := by
  intro always
  obtain ⟨after, returned, _⟩ := always {} EventLog.empty connectedGateway (.other "9") 0 .empty
    (.tail .refl .onLogon)
  cases returned

end Hft.Gateway.FIXGateway
