import Hft.EventLog
import Mathlib.Data.List.Infix
import Mathlib.Logic.Function.Basic
import Mathlib.Logic.Relation

/-!
# The stores behind an append

One `append` is three stores: the event into its slot, the volatile `next_seq_`, and the
`next_sequence` of the file's header. Stores to the mapping reach the file in program
order, the two counters are written in one piece, and a crash may come anywhere, also
while a slot is half written. What the file then holds is what the next process opens.
`Consistent` is the invariant of every such run, and `append_refines` connects the stores
with the log that the rest of the development uses.
-/

namespace Hft

open Logical

/-- `LOG_MAGIC`. -/
def logMagic : Nat := 0xBAADF00D1337CAFE

/-- `FILE_SIZE`: a 64-byte header and 64 bytes for each event. -/
def fileSize : Nat := 64 + maxEvents * 64

/-- The log file: its length, the header's two fields and the slots behind it. -/
structure LogFile where
  length : Nat
  magic : Nat
  nextSequence : Nat
  events : Nat → OrderEvent

namespace LogFile

/-- A file as the constructor leaves a new one: `ftruncate` zero-fills it. -/
def created : LogFile where
  length := fileSize
  magic := logMagic
  nextSequence := 0
  events _ := OrderEvent.zero

/-- `events_[sequence] = event`. -/
def store (file : LogFile) (sequence : Nat) (event : OrderEvent) : LogFile :=
  { file with events := Function.update file.events sequence event }

@[simp] theorem events_store_self (file : LogFile) (sequence : Nat) (event : OrderEvent) :
    (file.store sequence event).events sequence = event :=
  Function.update_self _ _ _

theorem events_store_of_ne (file : LogFile) {sequence index : Nat} (differs : index ≠ sequence)
    (event : OrderEvent) : (file.store sequence event).events index = file.events index :=
  Function.update_of_ne differs _ _

/-- `header_->next_sequence = sequence`. -/
def persist (file : LogFile) (sequence : Nat) : LogFile := { file with nextSequence := sequence }

end LogFile

/-- An open log: the mapped file and the volatile `next_seq_`. -/
structure MappedLog where
  file : LogFile
  nextSeq : Nat

namespace MappedLog

/-- `open_or_create` on a path with no file, and on one with a file. Failures of the
operating system calls are not modelled. -/
def openOrCreate : Option LogFile → Except Thrown MappedLog
  | none => .ok ⟨LogFile.created, 0⟩
  | some file =>
      if file.magic ≠ logMagic then .error (.runtimeError "EventLog: corrupt file")
      else .ok ⟨file, file.nextSequence⟩

def size (log : MappedLog) : Nat := log.nextSeq

def read (log : MappedLog) (sequence : Nat) : Option OrderEvent :=
  if log.nextSeq ≤ sequence then none else some (log.file.events sequence)

def replay {σ : Type} (log : MappedLog) (fn : σ → OrderEvent → σ) (target : σ) : σ :=
  ((List.range log.nextSeq).map log.file.events).foldl fn target

/-- `append` from its first store to its last. -/
def append (log : MappedLog) (now : Nat) (event : OrderEvent) : MappedLog × Except Thrown Nat :=
  if maxEvents ≤ log.nextSeq then (log, .error (.overflowError "EventLog full"))
  else
    let sequence := log.nextSeq
    let stored := log.file.store sequence (EventLog.stamp sequence now event)
    (⟨stored.persist (sequence + 1), sequence + 1⟩, .ok sequence)

/-- An event as the caller passed it, with the clock reading of its append. -/
structure Entry where
  event : OrderEvent
  now : Nat

/-- What an append of the entry stores. -/
def Entry.stamped (entry : Entry) (sequence : Nat) : OrderEvent :=
  EventLog.stamp sequence entry.now entry.event

/-- Where the writer is in `append`. -/
inductive Phase where
  | idle
  | storing (sequence : Nat) (entry : Entry)
  | stored (sequence : Nat) (entry : Entry)
  | published (sequence : Nat) (entry : Entry)
  | persisted (entry : Entry)

/-- A log in use, with the history of its appends over all processes: the entries that
stand fully written in the slots from 0 on, those whose header store ran, and those
whose `append` returned. -/
structure Run where
  log : MappedLog
  phase : Phase
  written : List Entry
  kept : List Entry
  returned : List Entry

namespace Run

/-- A new file, just opened. -/
def created : Run := ⟨⟨LogFile.created, 0⟩, .idle, [], [], []⟩

/-- One store, or one of the steps around them. `tear` is a slot store under way: the slot
may hold anything until `store` completes it. `reopen` is a crash, or an orderly end,
followed by the constructor on what the file holds. -/
inductive Step (run : Run) : Run → Prop where
  | start (entry : Entry) (idle : run.phase = .idle) (room : run.log.nextSeq < maxEvents) :
      Step run { run with phase := .storing run.log.nextSeq entry }
  | refuse (entry : Entry) {thrown : Thrown} (idle : run.phase = .idle)
      (threw : (run.log.append entry.now entry.event).2 = .error thrown) :
      Step run { run with log := (run.log.append entry.now entry.event).1 }
  | tear {sequence : Nat} {entry : Entry} (garbage : OrderEvent)
      (storing : run.phase = .storing sequence entry) :
      Step run { run with
        log := { run.log with file := run.log.file.store sequence garbage }
        written := run.written.take sequence }
  | store {sequence : Nat} {entry : Entry} (storing : run.phase = .storing sequence entry) :
      Step run { run with
        log := { run.log with file := run.log.file.store sequence (entry.stamped sequence) }
        phase := .stored sequence entry
        written := run.written.take sequence ++ [entry] }
  | publish {sequence : Nat} {entry : Entry} (stored : run.phase = .stored sequence entry) :
      Step run { run with
        log := { run.log with nextSeq := sequence + 1 }
        phase := .published sequence entry }
  | persist {sequence : Nat} {entry : Entry} (published : run.phase = .published sequence entry) :
      Step run { run with
        log := { run.log with file := run.log.file.persist (sequence + 1) }
        phase := .persisted entry
        kept := run.kept ++ [entry] }
  | finish {entry : Entry} (persisted : run.phase = .persisted entry) :
      Step run { run with phase := .idle, returned := run.returned ++ [entry] }
  | reopen {log : MappedLog} (opened : openOrCreate (some run.log.file) = .ok log) :
      Step run { run with log := log, phase := .idle }

/-- What the stores under way have reached, in each phase. -/
def Reached (run : Run) : Prop :=
  match run.phase with
  | .idle => run.log.nextSeq = run.kept.length
  | .storing sequence _ =>
      run.log.nextSeq = run.kept.length ∧ sequence = run.kept.length ∧ sequence < maxEvents
  | .stored sequence entry =>
      run.log.nextSeq = run.kept.length ∧ sequence = run.kept.length ∧ sequence < maxEvents ∧
        run.written = run.kept ++ [entry]
  | .published sequence entry =>
      run.log.nextSeq = run.kept.length + 1 ∧ sequence = run.kept.length ∧ sequence < maxEvents ∧
        run.written = run.kept ++ [entry]
  | .persisted entry =>
      run.log.nextSeq = run.kept.length ∧ ∃ earlier, run.kept = earlier ++ [entry] ∧
        run.returned.Sublist earlier

/-- The invariant: the header counts the kept entries, which are the first of those that
stand written, and every written entry is where its position says. -/
structure Consistent (run : Run) : Prop where
  magic : run.log.file.magic = logMagic
  header : run.log.file.nextSequence = run.kept.length
  bounded : run.kept.length ≤ maxEvents
  keptWritten : run.kept <+: run.written
  slots : ∀ index entry, run.written[index]? = some entry →
    run.log.file.events index = entry.stamped index
  returnedKept : run.returned.Sublist run.kept
  reached : run.Reached

theorem consistent_created : created.Consistent where
  magic := rfl
  header := rfl
  bounded := Nat.zero_le _
  keptWritten := List.prefix_rfl
  slots index entry found := by simp [created] at found
  returnedKept := .refl _
  reached := rfl

namespace Consistent

variable {run after : Run}

theorem take_written (consistent : run.Consistent) : run.written.take run.kept.length = run.kept :=
  (List.prefix_iff_eq_take.mp consistent.keptWritten).symm

/-- A store into the slot behind the kept entries leaves those alone. -/
theorem slots_kept (consistent : run.Consistent) (event : OrderEvent) {index : Nat} {entry : Entry}
    (found : run.kept[index]? = some entry) :
    (run.log.file.store run.kept.length event).events index = entry.stamped index := by
  obtain ⟨below, _⟩ := List.getElem?_eq_some_iff.mp found
  have written : run.written[index]? = some entry := by
    rw [← consistent.take_written, List.getElem?_take, if_pos below] at found
    exact found
  rw [LogFile.events_store_of_ne _ (Nat.ne_of_lt below)]
  exact consistent.slots index entry written

/-- A half-written slot is one behind the kept entries. -/
theorem tear (consistent : run.Consistent) {sequence : Nat} {entry : Entry}
    (storing : run.phase = .storing sequence entry) (garbage : OrderEvent) :
    Consistent { run with
      log := { run.log with file := run.log.file.store sequence garbage }
      written := run.written.take sequence } := by
  have reached := consistent.reached
  unfold Reached at reached
  rw [storing] at reached
  obtain ⟨nextSeq, rfl, room⟩ := reached
  refine ⟨consistent.magic, consistent.header, consistent.bounded, ?_, ?_,
    consistent.returnedKept, ?_⟩
  · exact consistent.take_written.symm ▸ List.prefix_rfl
  · intro index other found
    simp only [consistent.take_written] at found
    exact consistent.slots_kept garbage found
  · unfold Reached
    simp only [storing]
    exact ⟨nextSeq, trivial, room⟩

/-- A completed slot stands right behind the kept entries. -/
theorem store (consistent : run.Consistent) {sequence : Nat} {entry : Entry}
    (storing : run.phase = .storing sequence entry) :
    Consistent { run with
      log := { run.log with file := run.log.file.store sequence (entry.stamped sequence) }
      phase := .stored sequence entry
      written := run.written.take sequence ++ [entry] } := by
  have reached := consistent.reached
  unfold Reached at reached
  rw [storing] at reached
  obtain ⟨nextSeq, rfl, room⟩ := reached
  refine ⟨consistent.magic, consistent.header, consistent.bounded, ?_, ?_,
    consistent.returnedKept, ?_⟩
  · simp only [consistent.take_written]
    exact List.prefix_append _ _
  · intro index other found
    simp only [consistent.take_written] at found
    by_cases below : index < run.kept.length
    · rw [List.getElem?_append_left below] at found
      exact consistent.slots_kept _ found
    · rw [List.getElem?_append_right (Nat.not_lt.mp below), List.getElem?_singleton] at found
      split at found
      · rename_i last
        have same : index = run.kept.length := by omega
        cases found
        rw [same]
        exact LogFile.events_store_self _ _ _
      · cases found
  · exact ⟨nextSeq, rfl, room, by simp only [consistent.take_written]⟩

/-- Every store keeps the invariant, and so does a crash at any point. -/
theorem step (consistent : run.Consistent) (taken : Step run after) : after.Consistent := by
  have reached := consistent.reached
  unfold Reached at reached
  cases taken with
  | start entry idle room =>
      rw [idle] at reached
      exact ⟨consistent.magic, consistent.header, consistent.bounded, consistent.keptWritten,
        consistent.slots, consistent.returnedKept, reached, reached, room⟩
  | refuse entry idle threw =>
      have unchanged : (run.log.append entry.now entry.event).1 = run.log := by
        unfold append at threw ⊢
        split
        · rfl
        · rename_i room
          rw [if_neg room] at threw
          cases threw
      rw [unchanged]
      exact consistent
  | tear garbage storing => exact consistent.tear storing garbage
  | store storing => exact consistent.store storing
  | publish stored =>
      rw [stored] at reached
      obtain ⟨nextSeq, rfl, room, written⟩ := reached
      exact ⟨consistent.magic, consistent.header, consistent.bounded, consistent.keptWritten,
        consistent.slots, consistent.returnedKept, rfl, rfl, room, written⟩
  | @persist sequence entry published =>
      rw [published] at reached
      obtain ⟨nextSeq, rfl, room, written⟩ := reached
      have grown : (run.kept ++ [entry]).length = run.kept.length + 1 := by simp
      refine ⟨consistent.magic, grown.symm, ?_, ?_, consistent.slots, ?_, ?_⟩
      · rw [grown]
        exact room
      · rw [written]
      · exact consistent.returnedKept.trans (List.sublist_append_left _ _)
      · exact ⟨by rw [grown]; exact nextSeq, run.kept, rfl, consistent.returnedKept⟩
  | finish persisted =>
      rw [persisted] at reached
      obtain ⟨nextSeq, earlier, kept, sublist⟩ := reached
      refine ⟨consistent.magic, consistent.header, consistent.bounded, consistent.keptWritten,
        consistent.slots, ?_, nextSeq⟩
      rw [kept]
      exact sublist.append (.refl _)
  | reopen opened =>
      simp only [openOrCreate, consistent.magic, ne_eq, not_true_eq_false, if_false,
        Except.ok.injEq] at opened
      subst opened
      exact ⟨consistent.magic, consistent.header, consistent.bounded, consistent.keptWritten,
        consistent.slots, consistent.returnedKept, consistent.header⟩

theorem of_run {last : Run} (reached : Relation.ReflTransGen Step created last) :
    last.Consistent := by
  induction reached with
  | refl => exact consistent_created
  | tail _ taken ih => exact ih.step taken

/-- The volatile counter lies between the header and the entries that stand written. -/
theorem counters (consistent : run.Consistent) :
    run.log.file.nextSequence ≤ run.log.nextSeq ∧ run.log.nextSeq ≤ run.written.length := by
  have reached := consistent.reached
  have prefixLength := consistent.keptWritten.length_le
  rw [consistent.header]
  unfold Reached at reached
  cases phase : run.phase with
  | idle =>
      rw [phase] at reached
      omega
  | storing sequence entry =>
      rw [phase] at reached
      omega
  | stored sequence entry =>
      rw [phase] at reached
      omega
  | published sequence entry =>
      rw [phase] at reached
      obtain ⟨nextSeq, _, _, written⟩ := reached
      rw [nextSeq, written]
      simp
  | persisted entry =>
      rw [phase] at reached
      omega

end Consistent

/-- The events a process that opens the file after `kept` header stores finds. -/
def stampedEntries (kept : List Entry) : List OrderEvent :=
  kept.mapIdx fun index entry => entry.stamped index

end Run

/-! ## The log its callers see -/

/-- Between calls, an open log is the list of events that its callers see. -/
structure Presents (log : MappedLog) (view : EventLog) : Prop where
  header : log.file.nextSequence = view.size
  size : log.nextSeq = view.size
  slots : ∀ index event, view.events[index]? = some event → log.file.events index = event

namespace Presents

variable {log : MappedLog} {view : EventLog}

theorem read (presents : log.Presents view) (sequence : Nat) :
    log.read sequence = view.read sequence := by
  unfold MappedLog.read EventLog.read
  cases found : view.events[sequence]? with
  | none =>
      rw [if_pos]
      rw [presents.size]
      exact List.getElem?_eq_none_iff.mp found
  | some event =>
      obtain ⟨below, _⟩ := List.getElem?_eq_some_iff.mp found
      rw [if_neg, presents.slots sequence event found]
      rw [presents.size]
      exact Nat.not_le.mpr below

theorem replay {σ : Type} (presents : log.Presents view) (fn : σ → OrderEvent → σ) (target : σ) :
    log.replay fn target = view.replay fn target := by
  unfold MappedLog.replay EventLog.replay
  congr 1
  apply List.ext_getElem?
  intro index
  rw [presents.size]
  cases found : view.events[index]? with
  | none =>
      have beyond := List.getElem?_eq_none_iff.mp found
      exact List.getElem?_eq_none (by simpa [EventLog.size] using beyond)
  | some event =>
      obtain ⟨below, _⟩ := List.getElem?_eq_some_iff.mp found
      rw [List.getElem?_map, List.getElem?_range (by exact below)]
      simp [presents.slots index event found]

/-- The stores of an append do to the file what the append does to the list. -/
theorem append_refines (presents : log.Presents view) (now : Nat) (event : OrderEvent) :
    match view.append now event with
    | .ok (appended, sequence) =>
        (log.append now event).2 = .ok sequence ∧ (log.append now event).1.Presents appended
    | .error thrown => log.append now event = (log, .error thrown) := by
  by_cases room : view.size < maxEvents
  · obtain ⟨appended, succeeds⟩ := EventLog.exists_append_of_room room now event
    obtain ⟨_, events, _⟩ := EventLog.append_eq_ok_iff.mp succeeds
    have grown : appended.size = view.size + 1 := by simp [EventLog.size, events]
    rw [succeeds]
    simp only [MappedLog.append, presents.size, if_neg (Nat.not_le.mpr room)]
    refine ⟨trivial, grown.symm, grown.symm, ?_⟩
    intro index stored found
    rw [events] at found
    by_cases below : index < view.events.length
    · rw [List.getElem?_append_left below] at found
      exact (LogFile.events_store_of_ne _ (Nat.ne_of_lt below) _).trans
        (presents.slots index stored found)
    · rw [List.getElem?_append_right (Nat.not_lt.mp below), List.getElem?_singleton] at found
      split at found
      · have last : index = view.size := by
          unfold EventLog.size
          omega
        cases found
        rw [last]
        exact LogFile.events_store_self _ _ _
      · cases found
  · rw [EventLog.append_of_full (Nat.not_lt.mp room)]
    simp only [MappedLog.append, presents.size, if_pos (Nat.not_lt.mp room)]

end Presents

namespace Run

variable {run : Run}

/-- Reopening the file of a consistent run presents exactly the kept entries. -/
theorem Consistent.reopened (consistent : run.Consistent) :
    openOrCreate (some run.log.file) = .ok ⟨run.log.file, run.log.file.nextSequence⟩ ∧
      Presents ⟨run.log.file, run.log.file.nextSequence⟩
        ⟨stampedEntries run.kept, by simpa [stampedEntries] using consistent.bounded⟩ := by
  have size : run.log.file.nextSequence = (stampedEntries run.kept).length := by
    simp [stampedEntries, consistent.header]
  refine ⟨by simp [openOrCreate, consistent.magic], size, size, ?_⟩
  intro index event found
  simp only [stampedEntries, List.getElem?_mapIdx, Option.map_eq_some_iff] at found
  obtain ⟨entry, kept, rfl⟩ := found
  obtain ⟨suffix, appended⟩ := consistent.keptWritten
  obtain ⟨below, _⟩ := List.getElem?_eq_some_iff.mp kept
  apply consistent.slots
  rw [← appended, List.getElem?_append_left below]
  exact kept

/-- `append` is its stores, one after the other. -/
theorem steps_append (entry : Entry) (idle : run.phase = .idle)
    (room : run.log.nextSeq < maxEvents) :
    Relation.ReflTransGen Step run { run with
      log := (run.log.append entry.now entry.event).1
      written := run.written.take run.log.nextSeq ++ [entry]
      kept := run.kept ++ [entry]
      returned := run.returned ++ [entry] } := by
  obtain ⟨log, phase, written, kept, returned⟩ := run
  cases idle
  have started : Step ⟨log, .idle, written, kept, returned⟩ _ := .start entry rfl room
  have stored := (Relation.ReflTransGen.single started).tail (.store rfl)
  have finished := ((stored.tail (.publish rfl)).tail (.persist rfl)).tail (.finish rfl)
  simp only [append, if_neg (Nat.not_le.mpr room)]
  exact finished

/-- At every step the counters bracket each other, and a process that opens the file there
finds the appends whose header store ran, in order, under their sequence numbers, and
goes on behind them. An append that returned is among them; one at capacity throws and
leaves the log as it is. -/
theorem log_durable (reached : Relation.ReflTransGen Step created run) :
    (run.log.file.nextSequence ≤ run.log.nextSeq ∧ run.log.nextSeq ≤ run.written.length ∧
      ∀ index entry, run.written[index]? = some entry →
        run.log.file.events index = entry.stamped index) ∧
    run.returned.Sublist run.kept ∧
    ∃ log, openOrCreate (some run.log.file) = .ok log ∧
      log.size = run.kept.length ∧
      (∀ index, log.read index = run.kept[index]?.map fun entry => entry.stamped index) ∧
      (∀ (σ : Type) (fn : σ → OrderEvent → σ) (target : σ),
        log.replay fn target = (stampedEntries run.kept).foldl fn target) ∧
      ∀ now event,
        (run.kept.length < maxEvents → (log.append now event).2 = .ok run.kept.length) ∧
        (maxEvents ≤ run.kept.length →
          log.append now event = (log, .error (.overflowError "EventLog full"))) := by
  have consistent := Consistent.of_run reached
  obtain ⟨lower, upper⟩ := consistent.counters
  obtain ⟨opened, presents⟩ := consistent.reopened
  refine ⟨⟨lower, upper, consistent.slots⟩, consistent.returnedKept, _, opened,
    consistent.header, ?_, ?_, ?_⟩
  · intro index
    rw [presents.read]
    simp [EventLog.read, stampedEntries]
  · intro σ fn target
    exact presents.replay fn target
  · intro now event
    constructor
    · intro room
      simp [append, consistent.header, Nat.not_le.mpr room]
    · intro full
      simp [append, consistent.header, full]

/-- A sample entry. -/
def sampleEntry : Entry where
  event := makeNewOrder (StringView.ofList (ascii "AAPL")) .buy 100 175000000
    (StringView.ofList (ascii "O1"))
  now := 1000

/-- One entry that was kept, and a second append that a crash cut short in its slot. -/
def torn : Run where
  log := ⟨((LogFile.created.store 0 (sampleEntry.stamped 0)).persist 1).store 1 OrderEvent.zero, 1⟩
  phase := .idle
  written := [sampleEntry]
  kept := [sampleEntry]
  returned := [sampleEntry]

theorem reached_torn : Relation.ReflTransGen Step created torn := by
  have started : Step created _ := .start sampleEntry rfl (by decide)
  have stored := (Relation.ReflTransGen.single started).tail (.store rfl)
  have returned := ((stored.tail (.publish rfl)).tail (.persist rfl)).tail (.finish rfl)
  have again := returned.tail (.start sampleEntry rfl (show 1 < maxEvents by decide))
  exact (again.tail (.tear OrderEvent.zero rfl)).tail (.reopen rfl)

/-- The torn slot is not read, and the next append takes it. -/
theorem log_durable_torn :
    ∃ log, openOrCreate (some torn.log.file) = .ok log ∧ log.size = 1 ∧
      log.read 0 = some (sampleEntry.stamped 0) ∧ log.read 1 = none ∧
      (log.append 0 OrderEvent.zero).2 = .ok 1 := by
  obtain ⟨_, _, log, opened, size, read, _, append⟩ := log_durable reached_torn
  exact ⟨log, opened, size, read 0, read 1, (append 0 OrderEvent.zero).1 (by decide)⟩

end Run

end MappedLog

end Hft
