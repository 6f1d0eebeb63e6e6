import Hft.Projections
import Hft.Risk.Reducing

/-!
# Executions and what is said about them again

FIX 4.2 lets an exchange send a report about an execution more than once: to state how
things are, to take an execution back, to correct it. `ExecTransType` tells which, and the
translator looks at `ExecType` only. `OnlyNewBooked` is what should follow from the field;
`only_new_booked` finds it kept by the sequences in which `ExecType` alone says the same.
-/

namespace Hft.Gateway

open Logical

/-- A report with the ids that tie the reports about one execution together. No handler
reads them. -/
structure Execution where
  execId : List UInt8
  execRefId : Option (List UInt8)
  report : ExecutionReport

namespace Execution

/-- `ExecTransType` is one of NEW, CANCEL, CORRECT and STATUS. -/
def Typed (execution : Execution) : Prop :=
  execution.report.execTransType = some '0' ∨ execution.report.execTransType = some '1' ∨
    execution.report.execTransType = some '2' ∨ execution.report.execTransType = some '3'

/-- A trade bust of an earlier execution. -/
def Busts (execution earlier : Execution) : Prop :=
  execution.report.execTransType = some '1' ∧ execution.execRefId = some earlier.execId

/-- A report that `ExecType` lets pass for what `ExecTransType` says it is: a status report
is not booked, and what takes back or corrects an execution is not booked as a fill. -/
structure Heeded (execution : Execution) : Prop where
  status : execution.report.execTransType = some '3' →
    ∀ execType ∈ execution.report.execType, MessageTranslator.bookedType execType = none
  undone : execution.report.execTransType = some '1' ∨
      execution.report.execTransType = some '2' →
    execution.report.execType ≠ some '1' ∧ execution.report.execType ≠ some '2'

end Execution

/-- The fill of a symbol that a report announces as new, if it does. -/
def newFill (arith : Arithmetic) (symbol : List UInt8) (execution : Execution) :
    Option OrderEvent :=
  if execution.report.execTransType = some '0' then
    (bookedEvent arith execution.report).filter fun event =>
      event.isFill && event.symbol.string = symbol
  else none

/-- The fills of a symbol that a sequence of reports announces as new. -/
def newFills (arith : Arithmetic) (symbol : List UInt8) (executions : List Execution) :
    List OrderEvent :=
  executions.filterMap (newFill arith symbol)

namespace FIXGateway

/-- A sequence of reports, each of which `onMessage` survives. -/
inductive Processed (arith : Arithmetic) (gateway : FIXGateway) :
    List Execution → FIXGateway → Prop where
  | nil : Processed arith gateway [] gateway
  | report {executions : List Execution} {before after : FIXGateway} (execution : Execution)
      (now : Nat) (earlier : Processed arith gateway executions before)
      (returned : before.onMessage arith execution.report now = .returned after) :
      Processed arith gateway (executions ++ [execution]) after

/-- What `ExecTransType` promises about a sequence of reports: no status report changes the
books, no bust moves a position further the way the busted execution went, and a position
has moved by new executions alone, each at most once. -/
structure OnlyNewBooked (arith : Arithmetic) (gateway : FIXGateway) (executions : List Execution)
    (last : FIXGateway) : Prop where
  status : ∀ earlier execution later now before after,
    executions = earlier ++ execution :: later → Processed arith gateway earlier before →
    before.onMessage arith execution.report now = .returned after →
    execution.report.execTransType = some '3' →
    after.tracker = before.tracker ∧ after.orders = before.orders
  bust : ∀ earlier execution later now before after,
    executions = earlier ++ execution :: later → Processed arith gateway earlier before →
    before.onMessage arith execution.report now = .returned after →
    ∀ busted ∈ earlier, execution.Busts busted →
    ∀ fill ∈ bookedEvent arith busted.report, fill.isFill = true →
      fill.side.sign * (after.tracker.netOf fill.symbol.string -
        before.tracker.netOf fill.symbol.string) ≤ 0
  once : ∀ symbol, ∃ counted, List.Sublist counted (newFills arith symbol executions) ∧
    last.tracker.netOf symbol =
      gateway.tracker.netOf symbol + PositionTracker.signedTotal counted

variable {arith : Arithmetic} {gateway before after : FIXGateway} {execution : Execution}
  {now : Nat}

theorem onMessage_status (heeded : execution.Heeded)
    (status : execution.report.execTransType = some '3')
    (returned : before.onMessage arith execution.report now = .returned after) :
    after = before := by
  obtain ⟨_, same⟩ | ⟨event, translated, _⟩ := onMessage_eq_returned_iff.mp returned
  · exact same
  · obtain ⟨execType, etype, _, _, _, hasType, booked, _⟩ :=
      MessageTranslator.fromExecutionReport_eq_some_iff.mp translated
    rw [heeded.status status execType hasType] at booked
    cases booked

/-- The two fill types are the only ones booked as fills. -/
theorem execType_of_isFill {report : ExecutionReport} {event : OrderEvent}
    (translated : MessageTranslator.fromExecutionReport arith report = .ok (some event))
    (isFill : event.isFill = true) : report.execType = some '1' ∨ report.execType = some '2' := by
  obtain ⟨execType, etype, _, _, _, hasType, booked, _, _, _, rfl⟩ :=
    MessageTranslator.fromExecutionReport_eq_some_iff.mp translated
  rw [MessageTranslator.isFill_reportedEvent] at isFill
  rw [hasType]
  unfold MessageTranslator.bookedType at booked
  split_ifs at booked with partialFill fill cancel reject
  · exact .inl (congrArg some partialFill)
  · exact .inr (congrArg some fill)
  · cases booked
    cases isFill
  · cases booked
    cases isFill

/-- A heeded report of anything but a new execution leaves the tracker alone. -/
theorem tracker_of_not_new (heeded : execution.Heeded) (typed : execution.Typed)
    (notNew : execution.report.execTransType ≠ some '0')
    (returned : before.onMessage arith execution.report now = .returned after) :
    after.tracker = before.tracker := by
  have undone : execution.report.execTransType ≠ some '3' →
      execution.report.execType ≠ some '1' ∧ execution.report.execType ≠ some '2' := by
    intro notStatus
    obtain trans | trans | trans | trans := typed
    · exact absurd trans notNew
    · exact heeded.undone (.inl trans)
    · exact heeded.undone (.inr trans)
    · exact absurd trans notStatus
  by_cases status : execution.report.execTransType = some '3'
  · rw [onMessage_status heeded status returned]
  · obtain ⟨_, rfl⟩ | ⟨event, translated, booked⟩ := onMessage_eq_returned_iff.mp returned
    · rfl
    · obtain ⟨log, _, _, rfl⟩ := book_eq_ok_iff.mp booked
      apply PositionTracker.applyEvent_of_not_fill
      by_contra isFill
      rw [Bool.not_eq_false] at isFill
      obtain fill | fill := execType_of_isFill translated isFill
      · exact (undone status).1 fill
      · exact (undone status).2 fill

/-- A report of a new execution moves a position by its fill or not at all. -/
theorem once_of_new (ranged : before.Ranged)
    (isNew : execution.report.execTransType = some '0')
    (returned : before.onMessage .wrapping execution.report now = .returned after)
    (symbol : List UInt8) :
    after.tracker.netOf symbol = before.tracker.netOf symbol ∨
    ∃ fill, newFill .wrapping symbol execution = some fill ∧
      after.tracker.netOf symbol =
        before.tracker.netOf symbol + fill.side.sign * fill.fillQty := by
  obtain ⟨_, same⟩ | ⟨event, translated, booked⟩ := onMessage_eq_returned_iff.mp returned
  · exact .inl (by rw [same])
  · obtain ⟨log, _, _, rfl⟩ := book_eq_ok_iff.mp booked
    by_cases isFill : event.isFill = true
    · obtain dropped | moved := PositionTracker.netOf_applyEvent_cases .wrapping isFill
        (ranged.inRange_fill translated)
      · exact .inl (congrArg (fun tracker => PositionTracker.netOf tracker symbol) dropped)
      · by_cases onSymbol : event.symbol.string = symbol
        · refine .inr ⟨event, ?_, (moved symbol).trans (by rw [if_pos onSymbol])⟩
          simp [newFill, isNew, bookedEvent, translated, isFill, onSymbol]
        · exact .inl ((moved symbol).trans (by rw [if_neg onSymbol, add_zero]))
    · exact .inl (by rw [PositionTracker.applyEvent_of_not_fill _ _ (by simpa using isFill)])

/-- Reports keep the books in range. -/
theorem Processed.ranged {executions : List Execution} {last : FIXGateway}
    (run : Processed .wrapping gateway executions last) (ranged : gateway.Ranged) :
    last.Ranged := by
  induction run with
  | nil => exact ranged
  | report execution now _ returned ih =>
      exact SessionStep.ranged (.fromApp (.executionReport execution.report) now returned) ih

/-- Along a sequence of heeded reports, a position moves by new executions alone. -/
theorem Processed.once {executions : List Execution} {last : FIXGateway}
    (run : Processed .wrapping gateway executions last) (ranged : gateway.Ranged)
    (typed : ∀ execution ∈ executions, execution.Typed)
    (heeded : ∀ execution ∈ executions, execution.Heeded) (symbol : List UInt8) :
    ∃ counted, List.Sublist counted (newFills .wrapping symbol executions) ∧
      last.tracker.netOf symbol =
        gateway.tracker.netOf symbol + PositionTracker.signedTotal counted := by
  induction run with
  | nil => exact ⟨[], List.nil_sublist _, by simp [PositionTracker.signedTotal]⟩
  | @report executions before after execution now earlier returned ih =>
      obtain ⟨counted, sublist, moved⟩ := ih
        (fun other member => typed other (List.mem_append_left _ member))
        (fun other member => heeded other (List.mem_append_left _ member))
      have last := List.mem_append_right executions (List.mem_singleton_self execution)
      have grown : newFills .wrapping symbol (executions ++ [execution]) =
          newFills .wrapping symbol executions ++
            (newFill .wrapping symbol execution).toList := by
        rw [newFills, List.filterMap_append]
        cases found : newFill .wrapping symbol execution <;> simp [newFills, found]
      have still : after.tracker.netOf symbol = before.tracker.netOf symbol → ∃ counted,
          List.Sublist counted (newFills .wrapping symbol (executions ++ [execution])) ∧
          after.tracker.netOf symbol =
            gateway.tracker.netOf symbol + PositionTracker.signedTotal counted := by
        intro same
        rw [grown, same]
        exact ⟨counted, sublist.trans (List.sublist_append_left _ _), moved⟩
      by_cases isNew : execution.report.execTransType = some '0'
      · obtain same | ⟨fill, found, added⟩ :=
          once_of_new (earlier.ranged ranged) isNew returned symbol
        · exact still same
        · refine ⟨counted ++ [fill], ?_, ?_⟩
          · rw [grown, found]
            exact sublist.append (List.Sublist.refl _)
          · rw [added, moved]
            simp [PositionTracker.signedTotal, add_assoc]
      · exact still (by rw [tracker_of_not_new (heeded _ last) (typed _ last) isNew returned])

/-- From any state of a session, reports whose `ExecType` agrees with their `ExecTransType`
are booked as the latter promises. -/
theorem only_new_booked {limits : RiskLimits} {log : EventLog}
    (session : InSession .wrapping limits log gateway)
    (fields : ∀ event ∈ log.events, InRange 32 event.fillQty) {executions : List Execution}
    {last : FIXGateway} (typed : ∀ execution ∈ executions, execution.Typed)
    (heeded : ∀ execution ∈ executions, execution.Heeded)
    (run : Processed .wrapping gateway executions last) :
    OnlyNewBooked .wrapping gateway executions last where
  status := by
    rintro earlier execution later now before after rfl _ returned status
    have member := List.mem_append_right earlier (List.mem_cons_self (a := execution) (l := later))
    rw [onMessage_status (heeded execution member) status returned]
    exact ⟨rfl, rfl⟩
  bust := by
    rintro earlier execution later now before after rfl _ returned busted _ busts fill _ _
    have member := List.mem_append_right earlier (List.mem_cons_self (a := execution) (l := later))
    have notNew : execution.report.execTransType ≠ some '0' := by
      rw [busts.1]
      decide
    rw [tracker_of_not_new (heeded execution member) (typed execution member) notNew returned]
    simp
  once := run.once (session.ranged fields) typed heeded

/-! ## A fill, and what is said about it later -/

/-- One share bought. -/
def firstExecution : Execution where
  execId := ascii "E1"
  execRefId := none
  report := { filledReport (ascii "ORD0") with execTransType := some '0' }

/-- A report on how the order stands, under an `ExecType` of its own. -/
def statusExecution : Execution where
  execId := ascii "E2"
  execRefId := none
  report := { filledReport (ascii "ORD0") with execTransType := some '3', execType := some '0' }

/-- The bust of the fill, which repeats its fields. -/
def bustExecution : Execution where
  execId := ascii "E3"
  execRefId := some (ascii "E1")
  report := { filledReport (ascii "ORD0") with execTransType := some '1' }

/-- The gateway after the fill. -/
def firstBooked : FIXGateway := connectedGateway.delivered firstExecution.report

theorem processed_first : Processed .wrapping connectedGateway [firstExecution] firstBooked :=
  .report firstExecution 0 .nil rfl

/-- The status report is passed over. -/
theorem only_new_booked_status :
    OnlyNewBooked .wrapping connectedGateway [firstExecution, statusExecution] firstBooked := by
  refine only_new_booked inSession_connectedGateway (fun _ member => absurd member List.not_mem_nil)
    ?_ ?_ (.report statusExecution 0 processed_first rfl)
  · simp [Execution.Typed, firstExecution, statusExecution]
  · intro execution member
    obtain rfl | rfl : execution = firstExecution ∨ execution = statusExecution := by
      simpa using member
    · exact ⟨fun status => (nomatch status), fun undone => absurd undone (by decide)⟩
    · refine ⟨fun _ execType hasType => ?_, fun undone => absurd undone (by decide)⟩
      cases hasType
      rfl

/-- The bust is booked as a second purchase. -/
theorem bust_booked_as_fill :
    ¬∀ (limits : RiskLimits) (gateway last : FIXGateway) (executions : List Execution),
      InSession .wrapping limits EventLog.empty gateway →
      (∀ execution ∈ executions, execution.Typed) →
      Processed .wrapping gateway executions last →
      OnlyNewBooked .wrapping gateway executions last := by
  intro always
  have typed : ∀ execution ∈ [firstExecution, bustExecution], execution.Typed := by
    simp [Execution.Typed, firstExecution, bustExecution]
  have booked := always {} connectedGateway (firstBooked.delivered bustExecution.report)
    [firstExecution, bustExecution] inSession_connectedGateway typed
    (.report bustExecution 0 processed_first rfl)
  have moved := booked.bust [firstExecution] bustExecution [] 0 firstBooked
    (firstBooked.delivered bustExecution.report) rfl processed_first rfl firstExecution
    (List.mem_singleton_self _) ⟨rfl, rfl⟩ _ rfl rfl
  revert moved
  decide +kernel

end FIXGateway

end Hft.Gateway
