import Hft.EventLog.Creation
import Hft.Logical.Memory
import Mathlib.Data.List.GetD

/-!
# Opening a file nobody vouches for

An existing file is accepted on its magic alone. The mapping is as long as a log file
should be whatever the file's length is, and the counter that bounds `read` and `replay` is
taken over from the header as it stands. `accesses_safe_iff` says which contents are safe
to work with: those with a count that the array can have and all of the array's bytes.
-/

namespace Hft

open Logical

/-- A byte that is no enumerator reads as `unset`. -/
def EventType.ofByte (byte : UInt8) : EventType :=
  if byte = 1 then .newOrder
  else if byte = 2 then .partialFill
  else if byte = 3 then .fullFill
  else if byte = 4 then .cancel
  else if byte = 5 then .reject
  else if byte = 6 then .amend
  else .unset

def Side.ofByte (byte : UInt8) : Side :=
  if byte = 1 then .buy else if byte = 2 then .sell else .unset

/-- The event at an address, in the layout of the struct. -/
def OrderEvent.ofMemory (p : Pointer) : OrderEvent where
  sequence := p.unsigned 0 8
  timestampNs := p.unsigned 8 8
  price := p.signed 16 8
  fillPrice := p.signed 24 8
  qty := p.signed 32 4
  fillQty := p.signed 36 4
  symbol := p.charArray 40 8
  orderId := p.charArray 48 8
  type := EventType.ofByte (p 56)
  side := Side.ofByte (p 57)

/-- The file with a given content, as the mapping shows it: the rest of a started page reads
as zero. -/
def LogFile.ofBytes (content : List UInt8) : LogFile where
  length := content.length
  magic := (Pointer.ofList content).unsigned 0 8
  nextSequence := (Pointer.ofList content).unsigned 8 8
  events index := OrderEvent.ofMemory fun offset =>
    Pointer.ofList content (64 + index * 64 + offset)

namespace MappedLog

/-- What a program asks of an open log. -/
inductive Request where
  | read (sequence : Nat)
  | replay
  | append (now : Nat) (event : OrderEvent)

/-- The indices into `events_` that a request uses. -/
def accesses (log : MappedLog) : Request → List Nat
  | .read sequence => if log.nextSeq ≤ sequence then [] else [sequence]
  | .replay => List.range log.nextSeq
  | .append _ _ => if maxEvents ≤ log.nextSeq then [] else [log.nextSeq]

/-! The operations look at no other index. -/

theorem read_eq (log : MappedLog) (sequence : Nat) :
    log.read sequence = ((log.accesses (.read sequence)).map log.file.events).head? := by
  simp only [read, accesses]
  split <;> rfl

theorem replay_eq {σ : Type} (log : MappedLog) (fn : σ → OrderEvent → σ) (target : σ) :
    log.replay fn target = ((log.accesses .replay).map log.file.events).foldl fn target := rfl

theorem events_append_of_not_mem {log : MappedLog} {now index : Nat} {event : OrderEvent}
    (unused : index ∉ log.accesses (.append now event)) :
    (log.append now event).1.file.events index = log.file.events index := by
  simp only [append, accesses] at unused ⊢
  split at unused
  · rename_i full
    rw [if_pos full]
  · rename_i room
    rw [if_neg room]
    exact LogFile.events_store_of_ne _ (fun same => unused (List.mem_singleton.mpr same)) _

/-- The log after a request. -/
def served (log : MappedLog) : Request → MappedLog
  | .append now event => (log.append now event).1
  | _ => log

/-- A slot of the array that lies in a file of the given length. -/
def InBounds (length index : Nat) : Prop := index < maxEvents ∧ 64 + (index + 1) * 64 ≤ length

/-- All indices that a run of requests uses are in bounds. -/
def SafeAlong (length : Nat) : MappedLog → List Request → Prop
  | _, [] => True
  | log, request :: rest =>
      (∀ index ∈ log.accesses request, InBounds length index) ∧
        SafeAlong length (log.served request) rest

variable {length : Nat} {log : MappedLog}

theorem safeAlong_append {requests more : List Request} :
    SafeAlong length log (requests ++ more) ↔
      SafeAlong length log requests ∧ SafeAlong length (requests.foldl served log) more := by
  induction requests generalizing log with
  | nil => simp [SafeAlong]
  | cons request rest ih =>
      rw [List.cons_append, SafeAlong, SafeAlong, ih, List.foldl_cons, and_assoc]

/-- The counter after an append. -/
theorem nextSeq_served_append (now : Nat) (event : OrderEvent) :
    (log.served (.append now event)).nextSeq =
      if maxEvents ≤ log.nextSeq then log.nextSeq else log.nextSeq + 1 := by
  simp only [served, append]
  split <;> rfl

theorem nextSeq_served_le (counted : log.nextSeq ≤ maxEvents) (request : Request) :
    (log.served request).nextSeq ≤ maxEvents := by
  cases request with
  | read sequence => exact counted
  | replay => exact counted
  | append now event =>
      rw [nextSeq_served_append]
      split <;> omega

/-- A counter within the array keeps every request within the array. -/
theorem lt_of_mem_accesses (counted : log.nextSeq ≤ maxEvents) {request : Request} {index : Nat}
    (used : index ∈ log.accesses request) : index < maxEvents := by
  cases request with
  | read sequence =>
      simp only [accesses] at used
      split at used
      · exact absurd used List.not_mem_nil
      · rw [List.mem_singleton.mp used]
        omega
  | replay => exact (List.mem_range.mp used).trans_le counted
  | append now event =>
      simp only [accesses] at used
      split at used
      · exact absurd used List.not_mem_nil
      · rw [List.mem_singleton.mp used]
        omega

theorem safeAlong_of_counted (counted : log.nextSeq ≤ maxEvents) (whole : fileSize ≤ length)
    (requests : List Request) : SafeAlong length log requests := by
  induction requests generalizing log with
  | nil => trivial
  | cons request rest ih =>
      refine ⟨fun index used => ?_, ih (nextSeq_served_le counted request)⟩
      have below := lt_of_mem_accesses counted used
      refine ⟨below, ?_⟩
      unfold fileSize at whole
      omega

/-- Appends fill the log up. -/
theorem nextSeq_filled (now : Nat) (event : OrderEvent) {count : Nat}
    (room : log.nextSeq + count ≤ maxEvents) :
    ((List.replicate count (.append now event)).foldl served log).nextSeq =
      log.nextSeq + count := by
  induction count generalizing log with
  | zero => rfl
  | succ count ih =>
      have one : (log.served (.append now event)).nextSeq = log.nextSeq + 1 := by
        rw [nextSeq_served_append, if_neg (by omega)]
      rw [List.replicate_succ, List.foldl_cons, ih (by rw [one]; omega), one]
      omega

/-- No request ever leaves the array or the file exactly while the counter is one that the array
can have and the file is as long as the mapping. -/
theorem safeAlong_iff :
    (∀ requests, SafeAlong length log requests) ↔ log.nextSeq ≤ maxEvents ∧ fileSize ≤ length := by
  constructor
  · intro safe
    have counted : log.nextSeq ≤ maxEvents := by
      by_contra beyond
      have used : maxEvents ∈ log.accesses .replay := List.mem_range.mpr (by omega)
      exact absurd ((safe [.replay]).1 maxEvents used).1 (Nat.lt_irrefl _)
    refine ⟨counted, ?_⟩
    -- Once the log is full, a replay visits the last slot.
    let fill : List Request :=
      List.replicate (maxEvents - log.nextSeq) (.append 0 OrderEvent.zero)
    have full : (fill.foldl served log).nextSeq = maxEvents := by
      rw [nextSeq_filled 0 OrderEvent.zero (by omega)]
      omega
    have last : maxEvents - 1 ∈ (fill.foldl served log).accesses .replay := by
      rw [accesses, full]
      exact List.mem_range.mpr (by decide)
    have inside := ((safeAlong_append.mp (safe (fill ++ [.replay]))).2.1 _ last).2
    unfold fileSize
    simp only [maxEvents] at inside ⊢
    omega
  · rintro ⟨counted, whole⟩
    exact safeAlong_of_counted counted whole

/-- What is accepted, and what the log starts with. -/
theorem construct_some_iff {file : LogFile} :
    construct (some file) = .constructed log ↔
      file.length ≠ 0 ∧ file.magic = logMagic ∧ log = ⟨file, file.nextSequence⟩ := by
  unfold construct openOrCreate
  by_cases empty : file.length = 0
  · simp [empty]
  · by_cases genuine : file.magic = logMagic
    · simp [empty, genuine, eq_comm]
    · simp [empty, genuine]

/-- An accepted content is safe under every use of the log exactly when its header counts no
more events than the array has and the file is as long as the mapping. -/
theorem accesses_safe_iff {content : List UInt8}
    (accepted : construct (some (LogFile.ofBytes content)) = .constructed log) :
    (∀ requests, SafeAlong content.length log requests) ↔
      (Pointer.ofList content).unsigned 8 8 ≤ maxEvents ∧ fileSize ≤ content.length := by
  obtain ⟨_, _, rfl⟩ := construct_some_iff.mp accepted
  exact safeAlong_iff

/-- A header with the magic and a small count. -/
def header (count : UInt8) : List UInt8 :=
  [0xFE, 0xCA, 0x37, 0x13, 0x0D, 0xF0, 0xAD, 0xBA, count] ++ List.replicate 55 0

/-- What stands behind the header does not change it. -/
theorem unsigned_append {front : List UInt8} {offset width : Nat}
    (within : offset + width ≤ front.length) (rest : List UInt8) :
    (Pointer.ofList (front ++ rest)).unsigned offset width =
      (Pointer.ofList front).unsigned offset width := by
  have same : (Pointer.ofList (front ++ rest)).bytes offset width =
      (Pointer.ofList front).bytes offset width := by
    apply List.map_congr_left
    intro index member
    have below := List.mem_range.mp member
    exact List.getD_append _ _ _ _ (by omega)
  rw [Pointer.unsigned, same]
  rfl

/-- A file of full length that counts three events. -/
def threeCounted : List UInt8 := header 3 ++ List.replicate (maxEvents * 64) 0

/-- It is accepted, and safe to fill up. -/
theorem accesses_safe_three :
    SafeAlong threeCounted.length ⟨LogFile.ofBytes threeCounted, 3⟩
      [.replay, .append 0 OrderEvent.zero, .read 3] := by
  have whole : threeCounted.length = fileSize := by
    simp only [threeCounted, header, List.length_append, List.length_replicate, List.length_cons,
      List.length_nil, fileSize]
  have magic : (LogFile.ofBytes threeCounted).magic = logMagic :=
    (unsigned_append (by decide) _).trans (by decide +kernel)
  have count : (LogFile.ofBytes threeCounted).nextSequence = 3 :=
    (unsigned_append (by decide) _).trans (by decide +kernel)
  have nonempty : (LogFile.ofBytes threeCounted).length ≠ 0 := by
    rw [LogFile.ofBytes, whole]
    decide
  have accepted := construct_some_iff.mpr ⟨nonempty, magic, rfl⟩
  rw [count] at accepted
  exact (accesses_safe_iff accepted).mpr ⟨count.le.trans (by decide), whole.ge⟩ _

/-- A header alone that counts one event is accepted, and the event lies behind the end of the
file. -/
theorem counted_event_missing :
    ¬∀ content log, construct (some (LogFile.ofBytes content)) = .constructed log →
      ∀ requests, SafeAlong content.length log requests := by
  intro always
  have magic : (LogFile.ofBytes (header 1)).magic = logMagic := by decide +kernel
  have accepted := construct_some_iff.mpr ⟨by decide, magic, rfl⟩
  have used : 0 ∈ accesses ⟨LogFile.ofBytes (header 1), (LogFile.ofBytes (header 1)).nextSequence⟩
      (.read 0) := by decide +kernel
  have inside := (always (header 1) _ accepted [.read 0]).1 0 used
  exact absurd inside.2 (by decide)

end MappedLog

end Hft
