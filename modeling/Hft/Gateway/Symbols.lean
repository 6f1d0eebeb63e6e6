import Hft.Gateway.Tracking
import Hft.Logical.SlotIndex

/-!
# Symbols on the wire and symbols in the books

Every entry point copies a symbol into an 8-byte field, and every search compares 8 bytes.
A symbol that fits is sent as it is and has a slot of its own; of a longer one only the
first eight characters are ever seen again, on the wire and in the position table alike.
-/

namespace Hft

open Logical

namespace PositionTracker

variable {arith : Arithmetic} {tracker : PositionTracker}

/-- A fill writes to the slot of its symbol and to no other. -/
theorem getElem?_applyEvent_of_ne {event : OrderEvent} {index : Nat}
    (other : tracker.slotFor event.symbol.string ≠ some index) :
    (tracker.applyEvent arith event).slots[index]? = tracker.slots[index]? := by
  unfold applyEvent
  split
  · exact SlotTable.getElem?_upsert_of_ne _ (by rwa [key_applyFill_zeroed])
  · rfl

/-- No event takes a symbol's slot away. -/
theorem keys_prefix_applyEvent (arith : Arithmetic) (tracker : PositionTracker)
    (event : OrderEvent) :
    tracker.keys <+: (tracker.applyEvent arith event).keys := by
  unfold applyEvent
  split
  · rw [SlotTable.keys_upsert]
    split
    · exact List.prefix_append _ _
    · exact List.prefix_rfl
  · exact List.prefix_rfl

theorem keys_prefix_foldl (arith : Arithmetic) (tracker : PositionTracker)
    (events : List OrderEvent) :
    tracker.keys <+: SlotTable.keys (events.foldl (applyEvent arith) tracker) := by
  induction events generalizing tracker with
  | nil => exact List.prefix_rfl
  | cons event rest ih => exact (keys_prefix_applyEvent arith tracker event).trans (ih _)

/-- A fill, and another booked any number of events later, are written to slots of their
own. -/
def UpdatesTwoSlots (arith : Arithmetic) (tracker : PositionTracker) (first : OrderEvent)
    (between : List OrderEvent) (second : OrderEvent) : Prop :=
  ∃ left right, tracker.slotFor first.symbol.string = some left ∧
    SlotTable.slotFor ((first :: between).foldl (applyEvent arith) tracker)
      second.symbol.string = some right ∧ left ≠ right

theorem updatesTwoSlots_iff {first second : OrderEvent} (isFill : first.isFill = true)
    (between : List OrderEvent) :
    tracker.UpdatesTwoSlots arith first between second ↔
      first.symbol.string ≠ second.symbol.string ∧ tracker.Takes first.symbol.string ∧
        SlotTable.Takes ((first :: between).foldl (applyEvent arith) tracker)
          second.symbol.string := by
  have keyed := key_applyFill_zeroed arith first
  have applied : tracker.applyEvent arith first = SlotTable.upsert tracker
      (Position.applyFill arith first (Position.zeroed (strncpy first.symbolView.data 8)))
      (Position.applyFill arith first) (Position.key_applyFill arith first) := if_pos isFill
  have grown := keys_prefix_foldl arith (tracker.applyEvent arith first) between
  have written := SlotTable.two_slots_iff (Position.key_applyFill arith first)
    (applied ▸ grown) second.symbol.string
  rw [keyed] at written
  rw [UpdatesTwoSlots, List.foldl_cons, applied]
  exact written

end PositionTracker

namespace Gateway

/-- A report with a symbol, booked as a fill. -/
structure BooksFill (arith : Arithmetic) (report : ExecutionReport) (symbol : List UInt8)
    (event : OrderEvent) : Prop where
  hasSymbol : report.symbol = some symbol
  translated : MessageTranslator.fromExecutionReport arith report = .ok (some event)
  isFill : event.isFill = true

/-- A fill is booked under what the field keeps of its symbol. -/
theorem BooksFill.symbol_eq {arith : Arithmetic} {report : ExecutionReport} {symbol : List UInt8}
    {event : OrderEvent} (books : BooksFill arith report symbol event) :
    event.symbol.string = fieldKey (StringView.ofList symbol) := by
  obtain ⟨_, _, own, _, _, _, _, hasSymbol, _, _, rfl⟩ :=
    MessageTranslator.fromExecutionReport_eq_some_iff.mp books.translated
  rw [books.hasSymbol] at hasSymbol
  cases hasSymbol
  rw [MessageTranslator.symbol_reportedEvent, string_strncpy]
  rfl

namespace FIXGateway

/-- A field keeps a whole view exactly when the view has at most eight characters and fits
it. -/
theorem fieldKey_eq_chars_iff {symbol : StringView} :
    fieldKey symbol = symbol.chars ↔ symbol.size ≤ 8 ∧ FitsField symbol := by
  have fits : fieldKey symbol = symbol.chars.take 8 ↔ FitsField symbol := text_eq_take_chars_iff
  have size : symbol.chars.length = symbol.size := by simp [StringView.chars]
  constructor
  · intro whole
    have short : symbol.chars.length ≤ 8 := by
      rw [← whole, fieldKey, length_text]
      exact strnlen_le 8 _
    refine ⟨size ▸ short, fits.mp ?_⟩
    rw [whole, List.take_of_length_le short]
  · rintro ⟨short, kept⟩
    rw [fits.mpr kept, List.take_of_length_le (size.symm ▸ short)]

/-- The symbol on the wire is what the field keeps of the argument. -/
theorem symbol_handed {arith : Arithmetic} {gateway : FIXGateway} {args : SendArgs} {now : Nat}
    {sessionFound : Bool} {message : NewOrderSingle}
    (handed : (gateway.sendOrder arith args now sessionFound).handed = some message) :
    message.symbol = fieldKey args.symbol := by
  obtain ⟨_, same⟩ | ⟨_, _, same⟩ | ⟨_, _, _, _, same⟩ :=
    sendOrder_cases arith gateway args now sessionFound
  · rw [same] at handed
    cases handed
  · rw [same] at handed
    cases handed
  · rw [same] at handed
    cases handed
    exact symbol_newOrderEvent gateway args

/-- A symbol is sent as it is exactly when it fits the field, and two fills keep to slots of
their own exactly when their fields differ and the table has or gives each of them a slot. -/
theorem instruments_apart_iff (arith : Arithmetic) :
    (∀ (gateway : FIXGateway) (args : SendArgs) (now : Nat) (sessionFound : Bool)
      (message : NewOrderSingle),
      (gateway.sendOrder arith args now sessionFound).handed = some message →
      (message.symbol = args.symbol.chars ↔ args.symbol.size ≤ 8 ∧ FitsField args.symbol)) ∧
    (∀ (tracker : PositionTracker) (left right : ExecutionReport)
      (leftSymbol rightSymbol : List UInt8) (first second : OrderEvent) (between : List OrderEvent),
      BooksFill arith left leftSymbol first → BooksFill arith right rightSymbol second →
      (tracker.UpdatesTwoSlots arith first between second ↔
        fieldKey (StringView.ofList leftSymbol) ≠ fieldKey (StringView.ofList rightSymbol) ∧
        tracker.Takes (fieldKey (StringView.ofList leftSymbol)) ∧
        SlotTable.Takes ((first :: between).foldl (PositionTracker.applyEvent arith) tracker)
          (fieldKey (StringView.ofList rightSymbol)))) := by
  constructor
  · intro gateway args now sessionFound message handed
    rw [symbol_handed handed, fieldKey_eq_chars_iff]
  · intro tracker left right leftSymbol rightSymbol first second between leftBooks rightBooks
    rw [PositionTracker.updatesTwoSlots_iff leftBooks.isFill, leftBooks.symbol_eq,
      rightBooks.symbol_eq]

/-- The report of a fill of one share of a symbol. -/
def filledOn (symbol : List UInt8) : ExecutionReport :=
  { filledReport (ascii "ORD0") with symbol := some symbol }

/-- The event booked for it. -/
def eventOn (symbol : List UInt8) : OrderEvent :=
  MessageTranslator.reportedEvent .wrapping (filledOn symbol) .fullFill symbol (ascii "ORD0") '1'

theorem booksFill_filledOn (symbol : List UInt8) :
    BooksFill .wrapping (filledOn symbol) symbol (eventOn symbol) := ⟨rfl, rfl, rfl⟩

/-- AAPL is sent as it is, and AAPL and MSFT have two slots. -/
theorem instruments_apart_short :
    (∀ message, (connectedGateway.sendOrder .wrapping sampleArgs 0 true).handed = some message →
      message.symbol = sampleArgs.symbol.chars) ∧
    PositionTracker.initial.UpdatesTwoSlots .wrapping (eventOn (ascii "AAPL")) []
      (eventOn (ascii "MSFT")) := by
  have apart := instruments_apart_iff .wrapping
  constructor
  · intro message handed
    refine (apart.1 connectedGateway sampleArgs 0 true message handed).mpr ⟨by decide, ?_⟩
    unfold FitsField
    decide
  · exact (apart.2 PositionTracker.initial _ _ _ _ _ _ [] (booksFill_filledOn (ascii "AAPL"))
      (booksFill_filledOn (ascii "MSFT"))).mpr ⟨by decide, by decide, by decide +kernel⟩

/-- Of two options that differ in the ninth character, neither is sent under its own symbol,
and both are booked on one position. -/
theorem instruments_confused :
    (¬∀ (gateway : FIXGateway) (side : Side) (symbol : List UInt8) (qty priceFp : Int) (now : Nat)
      (message : NewOrderSingle), (∀ byte ∈ symbol, byte ≠ 0) →
      (gateway.sendOrder .wrapping ⟨StringView.ofList symbol, side, qty, priceFp⟩ now true).handed =
        some message → message.symbol = symbol) ∧
    ¬∀ (tracker : PositionTracker) (left right : ExecutionReport)
      (leftSymbol rightSymbol : List UInt8) (first second : OrderEvent) (between : List OrderEvent),
      BooksFill .wrapping left leftSymbol first → BooksFill .wrapping right rightSymbol second →
      leftSymbol ≠ rightSymbol → tracker.UpdatesTwoSlots .wrapping first between second := by
  constructor
  · intro always
    have sent := always connectedGateway .buy (ascii "ESZ5-1000") 1 0 0 _ (by decide +kernel) rfl
    revert sent
    decide +kernel
  · intro always
    have apart := always PositionTracker.initial _ _ _ _ _ _ []
      (booksFill_filledOn (ascii "ESZ5-1000")) (booksFill_filledOn (ascii "ESZ5-1005"))
      (by decide +kernel)
    rw [PositionTracker.updatesTwoSlots_iff rfl] at apart
    exact absurd apart.1 (by decide +kernel)

end FIXGateway

end Gateway

end Hft
