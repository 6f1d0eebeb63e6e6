import Hft.EventLog.Untrusted

/-!
# The log, byte by byte

The file is bytes, and an event lies in it as 64 of them. `toBytes` is the image of an event
in the layout of the struct, and `ofMemory` reads it back (`ofMemory_toBytes`). An append is
then not three stores but 64 and two: the bytes of the slot in whatever order they are
written, the volatile counter, and the eight bytes of the header's counter at once.
`refines` shows that every run of these stores is a run of the stores of `MappedLog.Run`, so
what is said there of crashes holds of a crash between any two bytes.
-/

namespace Hft

open Logical

namespace EventType

def toByte : EventType → UInt8
  | .unset => 0
  | .newOrder => 1
  | .partialFill => 2
  | .fullFill => 3
  | .cancel => 4
  | .reject => 5
  | .amend => 6

@[simp] theorem ofByte_toByte (type : EventType) : ofByte type.toByte = type := by
  cases type <;> rfl

end EventType

namespace Side

def toByte : Side → UInt8
  | .unset => 0
  | .buy => 1
  | .sell => 2

@[simp] theorem ofByte_toByte (side : Side) : ofByte side.toByte = side := by
  cases side <;> rfl

end Side

namespace OrderEvent

/-- The values that the fields of the struct can have. -/
structure Representable (event : OrderEvent) : Prop where
  sequence : event.sequence < 2 ^ 64
  timestampNs : event.timestampNs < 2 ^ 64
  price : InRange 64 event.price
  fillPrice : InRange 64 event.fillPrice
  qty : InRange 32 event.qty
  fillQty : InRange 32 event.fillQty

/-- The 64 bytes of the struct, field after field. -/
def toBytes (event : OrderEvent) : List UInt8 :=
  littleEndian 8 event.sequence ++ (littleEndian 8 event.timestampNs ++
    (littleEndianInt 8 event.price ++ (littleEndianInt 8 event.fillPrice ++
      (littleEndianInt 4 event.qty ++ (littleEndianInt 4 event.fillQty ++
        (event.symbol.1 ++ (event.orderId.1 ++
          (event.type.toByte :: event.side.toByte :: List.replicate 6 0))))))))

@[simp] theorem length_toBytes (event : OrderEvent) : event.toBytes.length = 64 := by
  simp [toBytes, event.symbol.2, event.orderId.2]

/-- Memory that holds the image of an event reads as that event. -/
theorem ofMemory_of_holds {p : Pointer} {event : OrderEvent} (fits : event.Representable)
    (holds : p.Holds 0 event.toBytes) : ofMemory p = event := by
  simp only [toBytes, Pointer.holds_append_iff, Pointer.holds_cons_iff, length_littleEndian,
    length_littleEndianInt, event.symbol.2, event.orderId.2] at holds
  obtain ⟨sequence, timestampNs, price, fillPrice, qty, fillQty, symbol, orderId, type, side, _⟩ :=
    holds
  have words : (256 : Nat) ^ 8 = 2 ^ 64 := by norm_num
  unfold ofMemory
  rw [Pointer.unsigned_of_holds (words ▸ fits.sequence) sequence,
    Pointer.unsigned_of_holds (words ▸ fits.timestampNs) timestampNs,
    Pointer.signed_of_holds (by decide) fits.price price,
    Pointer.signed_of_holds (by decide) fits.fillPrice fillPrice,
    Pointer.signed_of_holds (by decide) fits.qty qty,
    Pointer.signed_of_holds (by decide) fits.fillQty fillQty,
    Pointer.charArray_of_holds symbol, Pointer.charArray_of_holds orderId, type, side]
  simp

/-- An event is read from 64 bytes and no more. -/
theorem ofMemory_congr {left right : Pointer} (same : ∀ offset < 64, left offset = right offset) :
    ofMemory left = ofMemory right := by
  have fields : ∀ offset width, offset + width ≤ 64 →
      left.bytes offset width = right.bytes offset width :=
    fun offset width within => Pointer.bytes_congr fun index below => same _ (by omega)
  have type := same 56 (by decide)
  have side := same 57 (by decide)
  simp only [ofMemory, Pointer.signed, Pointer.unsigned, Pointer.charArray, type, side,
    fields 0 8 (by decide), fields 8 8 (by decide), fields 16 8 (by decide),
    fields 24 8 (by decide), fields 32 4 (by decide), fields 36 4 (by decide),
    fields 40 8 (by decide), fields 48 8 (by decide)]

/-- What is written is what is read. -/
theorem ofMemory_toBytes {event : OrderEvent} (fits : event.Representable) :
    ofMemory (Pointer.ofList event.toBytes) = event := by
  apply ofMemory_of_holds fits
  apply Pointer.holds_iff.mpr
  intro index _
  rw [Nat.zero_add]
  rfl

end OrderEvent

/-! ## The file as bytes -/

/-- A mapped file: its length and its bytes. -/
structure LogImage where
  length : Nat
  bytes : Pointer

namespace LogImage

/-- What the program makes of the bytes. -/
def file (image : LogImage) : LogFile where
  length := image.length
  magic := image.bytes.unsigned 0 8
  nextSequence := image.bytes.unsigned 8 8
  events index := OrderEvent.ofMemory (image.bytes.shift (64 + index * 64))

/-- A new file after the constructor's stores: the magic, and zeros. -/
def created : LogImage := ⟨fileSize, Pointer.ofList (littleEndian 8 logMagic)⟩

/-- One byte of a slot. -/
def storeByte (image : LogImage) (sequence offset : Nat) (byte : UInt8) : LogImage :=
  { image with bytes := Function.update image.bytes (64 + sequence * 64 + offset) byte }

/-- `header_->next_sequence = sequence`, eight aligned bytes in one store. -/
def storeHeader (image : LogImage) (sequence : Nat) : LogImage :=
  { image with bytes := image.bytes.store 8 (littleEndian 8 sequence) }

theorem file_ofList (content : List UInt8) :
    file ⟨content.length, Pointer.ofList content⟩ = LogFile.ofBytes content := rfl

theorem file_created : created.file = LogFile.created := by
  have magic : created.bytes.unsigned 0 8 = logMagic := by decide +kernel
  have count : created.bytes.unsigned 8 8 = 0 := by decide +kernel
  have zeros : ∀ index, created.bytes.shift (64 + index * 64) = fun _ => 0 := by
    intro index
    funext offset
    refine List.getD_eq_default _ _ ?_
    rw [length_littleEndian]
    omega
  have slot : OrderEvent.ofMemory (fun _ => 0) = OrderEvent.zero := by decide +kernel
  simp only [file, magic, count, zeros, slot]
  rfl

/-- A byte of one slot is a store into that slot, whatever the slot then reads as. -/
theorem file_storeByte (image : LogImage) (sequence : Nat) {offset : Nat} (within : offset < 64)
    (byte : UInt8) :
    (image.storeByte sequence offset byte).file = image.file.store sequence
      (OrderEvent.ofMemory ((image.storeByte sequence offset byte).bytes.shift
        (64 + sequence * 64))) := by
  have outside : ∀ address, address ≠ 64 + sequence * 64 + offset →
      (image.storeByte sequence offset byte).bytes address = image.bytes address :=
    fun address differs => Function.update_of_ne differs _ _
  have magic : (image.storeByte sequence offset byte).bytes.unsigned 0 8 =
      image.bytes.unsigned 0 8 :=
    Pointer.unsigned_congr fun index below => outside _ (by omega)
  have count : (image.storeByte sequence offset byte).bytes.unsigned 8 8 =
      image.bytes.unsigned 8 8 :=
    Pointer.unsigned_congr fun index below => outside _ (by omega)
  simp only [file, LogFile.store, magic, count, LogFile.mk.injEq, true_and]
  refine ⟨rfl, ?_⟩
  funext index
  by_cases same : index = sequence
  · rw [same, Function.update_self]
  · rw [Function.update_of_ne same]
    -- The 64 bytes of another slot do not contain the byte.
    exact OrderEvent.ofMemory_congr fun place below => outside _ (by omega)

/-- The header's counter lies in front of the slots and behind the magic. -/
theorem file_storeHeader (image : LogImage) {sequence : Nat} (fits : sequence < 2 ^ 64) :
    (image.storeHeader sequence).file = image.file.persist sequence := by
  have words : (256 : Nat) ^ 8 = 2 ^ 64 := by norm_num
  have outside : ∀ address, address < 8 ∨ 16 ≤ address →
      (image.storeHeader sequence).bytes address = image.bytes address := by
    intro address apart
    apply Pointer.store_of_outside
    rw [length_littleEndian]
    exact apart
  have magic : (image.storeHeader sequence).bytes.unsigned 0 8 = image.bytes.unsigned 0 8 :=
    Pointer.unsigned_congr fun index below => outside _ (by omega)
  have count : (image.storeHeader sequence).bytes.unsigned 8 8 = sequence :=
    Pointer.unsigned_of_holds (words ▸ fits) (Pointer.holds_store _ _ _)
  simp only [file, LogFile.persist, magic, count, LogFile.mk.injEq, true_and]
  refine ⟨rfl, ?_⟩
  funext index
  exact OrderEvent.ofMemory_congr fun place below => outside _ (by omega)

end LogImage

/-! ## Appends, byte by byte -/

namespace MappedLog

/-- The values that an append's arguments can have. -/
structure Entry.Representable (entry : Entry) : Prop where
  event : entry.event.Representable
  now : entry.now < 2 ^ 64

theorem Entry.Representable.stamped {entry : Entry} (fits : entry.Representable) {sequence : Nat}
    (room : sequence < maxEvents) : (entry.stamped sequence).Representable where
  sequence := room.trans (by decide)
  timestampNs := fits.now
  price := fits.event.price
  fillPrice := fits.event.fillPrice
  qty := fits.event.qty
  fillQty := fits.event.fillQty

/-- Where the writer is in `append`, and which bytes of the slot are still to be written. -/
inductive BytePhase where
  | idle
  | storing (sequence : Nat) (entry : Entry) (left : List Nat)
  | stored (sequence : Nat) (entry : Entry)
  | published (sequence : Nat) (entry : Entry)
  | persisted (entry : Entry)

/-- The phase of the append without its bytes. -/
def BytePhase.phase : BytePhase → Phase
  | .idle => .idle
  | .storing sequence entry _ => .storing sequence entry
  | .stored sequence entry => .stored sequence entry
  | .published sequence entry => .published sequence entry
  | .persisted entry => .persisted entry

/-- A log in use whose file is bytes, with the history of its appends. -/
structure ByteRun where
  image : LogImage
  nextSeq : Nat
  phase : BytePhase
  written : List Entry
  kept : List Entry
  returned : List Entry

namespace ByteRun

/-- A new file, just opened. -/
def created : ByteRun := ⟨LogImage.created, 0, .idle, [], [], []⟩

/-- The run with the bytes read as the program reads them. -/
def read (run : ByteRun) : Run where
  log := ⟨run.image.file, run.nextSeq⟩
  phase := run.phase.phase
  written := run.written
  kept := run.kept
  returned := run.returned

theorem read_created : created.read = Run.created := by
  rw [read, Run.created, created, LogImage.file_created]
  rfl

/-- One byte of a slot, one of the counters, or a step around them. The bytes of a slot are
written in any order. -/
inductive Step (run : ByteRun) : ByteRun → Prop where
  | start (entry : Entry) (idle : run.phase = .idle) (room : run.nextSeq < maxEvents)
      (fits : entry.Representable) :
      Step run { run with phase := .storing run.nextSeq entry (List.range 64) }
  | storeByte {sequence : Nat} {entry : Entry} {left : List Nat} {offset : Nat}
      (storing : run.phase = .storing sequence entry left) (due : offset ∈ left) :
      Step run { run with
        image := run.image.storeByte sequence offset
          ((entry.stamped sequence).toBytes.getD offset 0)
        phase := .storing sequence entry (left.erase offset)
        written := run.written.take sequence }
  | complete {sequence : Nat} {entry : Entry} (storing : run.phase = .storing sequence entry []) :
      Step run { run with
        phase := .stored sequence entry
        written := run.written.take sequence ++ [entry] }
  | publish {sequence : Nat} {entry : Entry} (stored : run.phase = .stored sequence entry) :
      Step run { run with nextSeq := sequence + 1, phase := .published sequence entry }
  | persist {sequence : Nat} {entry : Entry} (published : run.phase = .published sequence entry) :
      Step run { run with
        image := run.image.storeHeader (sequence + 1)
        phase := .persisted entry
        kept := run.kept ++ [entry] }
  | finish {entry : Entry} (persisted : run.phase = .persisted entry) :
      Step run { run with phase := .idle, returned := run.returned ++ [entry] }
  | reopen {log : MappedLog} (opened : openOrCreate (some run.image.file) = .ok log) :
      Step run { run with nextSeq := log.nextSeq, phase := .idle }

/-- The bytes of the slot that are not still to be written are the event's. -/
def Filled (run : ByteRun) : Prop :=
  match run.phase with
  | .storing sequence entry left =>
      entry.Representable ∧ sequence < maxEvents ∧ (∀ offset ∈ left, offset < 64) ∧
        ∀ offset < 64, offset ∉ left → run.image.bytes (64 + sequence * 64 + offset) =
          (entry.stamped sequence).toBytes.getD offset 0
  | _ => True

variable {run after : ByteRun}

theorem filled_step (filled : run.Filled) (taken : Step run after) : after.Filled := by
  cases taken with
  | start entry idle room fits =>
      refine ⟨fits, room, fun offset member => List.mem_range.mp member, ?_⟩
      intro offset below missing
      exact absurd (List.mem_range.mpr below) missing
  | @storeByte sequence entry left offset storing due =>
      unfold Filled at filled
      rw [storing] at filled
      obtain ⟨fits, room, bounded, done⟩ := filled
      refine ⟨fits, room, fun other member => bounded other (List.mem_of_mem_erase member), ?_⟩
      intro other below missing
      by_cases same : other = offset
      · rw [same]
        exact Function.update_self _ _ _
      · have before : other ∉ left := fun member =>
          missing ((List.mem_erase_of_ne same).mpr member)
        simp only [LogImage.storeByte]
        rw [Function.update_of_ne (by omega)]
        exact done other below before
  | complete storing => trivial
  | publish stored => trivial
  | persist published => trivial
  | finish persisted => trivial
  | reopen opened => trivial

/-- Once every byte is written, the slot reads as the event. -/
theorem events_of_filled {sequence : Nat} {entry : Entry} (filled : run.Filled)
    (storing : run.phase = .storing sequence entry []) :
    run.image.file.events sequence = entry.stamped sequence := by
  unfold Filled at filled
  rw [storing] at filled
  obtain ⟨fits, room, _, done⟩ := filled
  apply OrderEvent.ofMemory_of_holds (fits.stamped room)
  apply Pointer.holds_iff.mpr
  intro offset below
  rw [OrderEvent.length_toBytes] at below
  rw [Nat.zero_add]
  exact done offset below List.not_mem_nil

/-- Each store of bytes is a store of the log whose slots are events, or one under way. -/
theorem read_step (filled : run.Filled) (consistent : run.read.Consistent)
    (taken : Step run after) : Run.Step run.read after.read := by
  have reached := consistent.reached
  unfold Run.Reached at reached
  cases taken with
  | start entry idle room fits => exact .start entry (by rw [read, idle]; rfl) room
  | @storeByte sequence entry left offset storing due =>
      unfold Filled at filled
      rw [storing] at filled
      have tearing : run.read.phase = .storing sequence entry := by rw [read, storing]; rfl
      have same := LogImage.file_storeByte run.image sequence (filled.2.2.1 offset due)
        ((entry.stamped sequence).toBytes.getD offset 0)
      have torn := Run.Step.tear (OrderEvent.ofMemory ((run.image.storeByte sequence offset
        ((entry.stamped sequence).toBytes.getD offset 0)).bytes.shift (64 + sequence * 64))) tearing
      simp only [read, storing, BytePhase.phase, same] at torn ⊢
      exact torn
  | @complete sequence entry storing =>
      have ready : run.read.phase = .storing sequence entry := by rw [read, storing]; rfl
      have slot := events_of_filled filled storing
      have stored := Run.Step.store ready
      have same : run.image.file.store sequence (entry.stamped sequence) = run.image.file := by
        rw [LogFile.store, ← slot, Function.update_eq_self]
      simp only [read, same] at stored
      exact stored
  | @publish sequence entry stored => exact .publish (by rw [read, stored]; rfl)
  | @persist sequence entry published =>
      have ready : run.read.phase = .published sequence entry := by rw [read, published]; rfl
      rw [ready] at reached
      have fits : sequence + 1 < 2 ^ 64 := by
        have room := reached.2.2.1
        simp only [maxEvents] at room
        omega
      have persisted := Run.Step.persist ready
      simp only [read, ← LogImage.file_storeHeader run.image fits] at persisted
      exact persisted
  | finish persisted => exact .finish (by rw [read, persisted]; rfl)
  | @reopen log opened =>
      have reopened := @Run.Step.reopen run.read _ opened
      have same : log.file = run.image.file := by
        unfold openOrCreate at opened
        simp only at opened
        split at opened
        · cases opened
        · cases opened
          rfl
      have whole : log = ⟨run.image.file, log.nextSeq⟩ := by
        rw [← same]
      rw [whole] at reopened
      exact reopened

/-- A run of byte stores is a run of stores, and its slots are filled as far as they went. -/
theorem refines (reached : Relation.ReflTransGen Step created run) :
    Relation.ReflTransGen Run.Step Run.created run.read ∧ run.Filled := by
  induction reached with
  | refl => exact ⟨by rw [read_created], trivial⟩
  | tail _ taken ih =>
      have step := read_step ih.2 (Run.Consistent.of_run ih.1) taken
      exact ⟨ih.1.tail step, filled_step ih.2 taken⟩

/-- A crash between any two bytes leaves a file whose bytes read as the appends whose header
store ran, in order and whole, and an append that returned is among them. -/
theorem bytes_durable (reached : Relation.ReflTransGen Step created run) :
    run.returned.Sublist run.kept ∧
    ∃ log, openOrCreate (some run.image.file) = .ok log ∧ log.size = run.kept.length ∧
      (∀ index, log.read index = run.kept[index]?.map fun entry => entry.stamped index) ∧
      ∀ now event, run.kept.length < maxEvents →
        (log.append now event).2 = .ok run.kept.length := by
  have consistent := Run.Consistent.of_run (refines reached).1
  obtain ⟨opened, presents⟩ := consistent.reopened
  refine ⟨consistent.returnedKept, _, opened, consistent.header, fun index => ?_,
    fun now event room => ?_⟩
  · rw [presents.read]
    simp [EventLog.read, Run.stampedEntries, read]
  · have header : run.image.file.nextSequence = run.kept.length := consistent.header
    simp [append, read, header, Nat.not_le.mpr room]

/-- The bytes of a slot may be written from the first to the last. -/
theorem exists_stored {sequence : Nat} {entry : Entry} (left : List Nat)
    (storing : run.phase = .storing sequence entry left) :
    ∃ filled, Relation.ReflTransGen Step run filled ∧
      filled.phase = .storing sequence entry [] ∧ filled.kept = run.kept := by
  induction left generalizing run with
  | nil => exact ⟨run, .refl, storing, rfl⟩
  | cons offset rest ih =>
      let stored : ByteRun := { run with
        image := run.image.storeByte sequence offset
          ((entry.stamped sequence).toBytes.getD offset 0)
        phase := .storing sequence entry rest
        written := run.written.take sequence }
      have first : Step run stored := by
        have step := Step.storeByte storing (@List.mem_cons_self _ offset rest)
        rwa [List.erase_cons_head] at step
      obtain ⟨filled, more, phase, kept⟩ := @ih stored rfl
      exact ⟨filled, .head first more, phase, kept⟩

/-- One append up to its header store. -/
theorem exists_persisted : ∃ run, Relation.ReflTransGen Step created run ∧
    run.kept = [Run.sampleEntry] := by
  have fits : Run.sampleEntry.Representable := by
    refine ⟨⟨?_, ?_, ?_, ?_, ?_, ?_⟩, ?_⟩ <;> decide
  have started : Step created { created with
      phase := .storing 0 Run.sampleEntry (List.range 64) } :=
    .start Run.sampleEntry rfl (by decide) fits
  obtain ⟨filled, stores, phase, kept⟩ := @exists_stored { created with
      phase := .storing 0 Run.sampleEntry (List.range 64) } 0 Run.sampleEntry (List.range 64) rfl
  have complete := (Relation.ReflTransGen.head started stores).tail (.complete phase)
  refine ⟨_, (complete.tail (.publish rfl)).tail (.persist rfl), ?_⟩
  simp only [kept]
  rfl

/-- The event is there. -/
theorem bytes_durable_one : ∃ run, Relation.ReflTransGen Step created run ∧
    ∃ log, openOrCreate (some run.image.file) = .ok log ∧
      log.read 0 = some (Run.sampleEntry.stamped 0) := by
  obtain ⟨run, reached, kept⟩ := exists_persisted
  obtain ⟨_, log, opened, _, read, _⟩ := bytes_durable reached
  refine ⟨run, reached, log, opened, ?_⟩
  rw [read 0, kept]
  rfl

end ByteRun

end MappedLog

end Hft
