import Hft.EventLog.Stores
import Mathlib.Logic.Function.Basic

/-!
# More than one writer

`append` is to be called from the single writer thread only. It takes no lock, and the gateway has
two threads that call it. `Writers` is the log under any number of threads, each at its own place
in the call. As long as no call begins while another is under way, the stores are those of one
writer and every append that returned is in the log (`exclusive_run`). Two calls that begin
together take the same slot, and both return (`exists_lost`).
-/

namespace Hft.MappedLog

open Relation

/-- A log in use by several threads, with the entries whose stores ran and whose calls returned. -/
structure Writers (ω : Type) where
  log : MappedLog
  phases : ω → Phase
  written : List Entry
  kept : List Entry
  returned : List Entry

namespace Writers

variable {ω : Type} [DecidableEq ω]

/-- A new file, and nobody in `append`. -/
def created : Writers ω := ⟨⟨LogFile.created, 0⟩, fun _ => .idle, [], [], []⟩

/-- A thread comes to its next place. -/
def proceed (writers : Writers ω) (writer : ω) (phase : Phase) : Writers ω :=
  { writers with phases := Function.update writers.phases writer phase }

/-- Nobody else is in `append`. -/
def Alone (writers : Writers ω) (writer : ω) : Prop :=
  ∀ other, other ≠ writer → writers.phases other = .idle

/-- One store of one of the threads. `admits` says when a call may begin; the code asks for
nothing. -/
inductive Step (admits : Writers ω → ω → Prop) (writers : Writers ω) : Writers ω → Prop where
  | start (writer : ω) (entry : Entry) (idle : writers.phases writer = .idle)
      (room : writers.log.nextSeq < maxEvents) (admitted : admits writers writer) :
      Step admits writers (writers.proceed writer (.storing writers.log.nextSeq entry))
  | tear (writer : ω) {sequence : Nat} {entry : Entry} (garbage : OrderEvent)
      (storing : writers.phases writer = .storing sequence entry) :
      Step admits writers { writers with
        log := { writers.log with file := writers.log.file.store sequence garbage }
        written := writers.written.take sequence }
  | store (writer : ω) {sequence : Nat} {entry : Entry}
      (storing : writers.phases writer = .storing sequence entry) :
      Step admits writers { writers.proceed writer (.stored sequence entry) with
        log := { writers.log with
          file := writers.log.file.store sequence (entry.stamped sequence) }
        written := writers.written.take sequence ++ [entry] }
  | publish (writer : ω) {sequence : Nat} {entry : Entry}
      (stored : writers.phases writer = .stored sequence entry) :
      Step admits writers { writers.proceed writer (.published sequence entry) with
        log := { writers.log with nextSeq := sequence + 1 } }
  | persist (writer : ω) {sequence : Nat} {entry : Entry}
      (published : writers.phases writer = .published sequence entry) :
      Step admits writers { writers.proceed writer (.persisted entry) with
        log := { writers.log with file := writers.log.file.persist (sequence + 1) }
        kept := writers.kept ++ [entry] }
  | finish (writer : ω) {entry : Entry} (persisted : writers.phases writer = .persisted entry) :
      Step admits writers { writers.proceed writer .idle with
        returned := writers.returned ++ [entry] }
  | reopen {log : MappedLog} (opened : openOrCreate (some writers.log.file) = .ok log) :
      Step admits writers { writers with log := log, phases := fun _ => .idle }

/-- The log as one writer would have it. -/
def asRun (writers : Writers ω) (phase : Phase) : Run :=
  ⟨writers.log, phase, writers.written, writers.kept, writers.returned⟩

/-- No two threads are in `append`, and the one that is, if any, is where the writer of the run
is. -/
inductive Single (writers : Writers ω) : Run → Prop where
  | outside (none : ∀ writer, writers.phases writer = .idle) : Single writers (writers.asRun .idle)
  | inside (writer : ω) (alone : writers.Alone writer) :
      Single writers (writers.asRun (writers.phases writer))

variable {admits : Writers ω → ω → Prop} {writers after : Writers ω} {run : Run}

/-- The writer of the run is where the one thread is that may be in `append`. -/
theorem Single.asRun_eq (single : writers.Single run) {writer : ω} {phase : Phase}
    (here : writers.phases writer = phase) (only : phase ≠ .idle ∨ writers.Alone writer) :
    run = writers.asRun phase ∧ writers.Alone writer := by
  subst here
  cases single with
  | outside none =>
      rw [none writer]
      exact ⟨rfl, fun other _ => none other⟩
  | inside busy alone =>
      by_cases same : writer = busy
      · rw [same]
        exact ⟨rfl, alone⟩
      · have idle := alone writer same
        have also := only.resolve_left (not_not.mpr idle)
        rw [idle, also busy (Ne.symm same)]
        exact ⟨rfl, also⟩

omit [DecidableEq ω] in
theorem Single.of_alone {writer : ω} {phase : Phase} (alone : writers.Alone writer)
    (here : writers.phases writer = phase) : writers.Single (writers.asRun phase) := by
  subst here
  exact .inside writer alone

/-- It goes on alone. -/
theorem Single.of_update {writer : ω} {phase : Phase} (alone : writers.Alone writer)
    (phases : after.phases = Function.update writers.phases writer phase) :
    after.Single (after.asRun phase) := by
  refine @of_alone ω after writer phase (fun other differs => ?_) ?_
  · rw [phases, Function.update_of_ne differs]
    exact alone other differs
  · rw [phases, Function.update_self]

theorem Single.step (single : writers.Single run) (taken : Step Alone writers after) :
    ∃ next, Run.Step run next ∧ after.Single next := by
  cases taken with
  | start writer entry idle room alone =>
      obtain ⟨rfl, _⟩ := single.asRun_eq idle (.inr alone)
      exact ⟨_, .start entry rfl room, .of_update alone rfl⟩
  | tear writer garbage storing =>
      obtain ⟨rfl, alone⟩ := single.asRun_eq storing (.inl Phase.noConfusion)
      exact ⟨_, .tear garbage rfl, @Single.of_alone ω _ writer _ alone storing⟩
  | store writer storing =>
      obtain ⟨rfl, alone⟩ := single.asRun_eq storing (.inl Phase.noConfusion)
      exact ⟨_, .store rfl, .of_update alone rfl⟩
  | publish writer stored =>
      obtain ⟨rfl, alone⟩ := single.asRun_eq stored (.inl Phase.noConfusion)
      exact ⟨_, .publish rfl, .of_update alone rfl⟩
  | persist writer published =>
      obtain ⟨rfl, alone⟩ := single.asRun_eq published (.inl Phase.noConfusion)
      exact ⟨_, .persist rfl, .of_update alone rfl⟩
  | finish writer persisted =>
      obtain ⟨rfl, alone⟩ := single.asRun_eq persisted (.inl Phase.noConfusion)
      exact ⟨_, .finish rfl, .of_update alone rfl⟩
  | reopen opened =>
      cases single with
      | outside none => exact ⟨_, .reopen opened, .outside fun _ => rfl⟩
      | inside writer alone => exact ⟨_, .reopen opened, .outside fun _ => rfl⟩

/-- Calls that keep apart are the calls of one writer. -/
theorem exclusive_run (run : ReflTransGen (Step Alone) created writers) :
    ∃ single, ReflTransGen Run.Step Run.created single ∧ writers.Single single := by
  induction run with
  | refl => exact ⟨_, .refl, .outside fun _ => rfl⟩
  | tail _ taken ih =>
      obtain ⟨single, earlier, same⟩ := ih
      obtain ⟨next, step, after⟩ := same.step taken
      exact ⟨next, earlier.tail step, after⟩

/-- The file stays one of ours whoever writes to it. -/
theorem magic_of_run (run : ReflTransGen (Step admits) created writers) :
    writers.log.file.magic = logMagic := by
  induction run with
  | refl => rfl
  | tail _ taken ih =>
      cases taken with
      | start writer entry idle room admitted => exact ih
      | tear writer garbage storing => exact ih
      | store writer storing => exact ih
      | publish writer stored => exact ih
      | persist writer published => exact ih
      | finish writer persisted => exact ih
      | reopen opened =>
          simp only [openOrCreate, ih, ne_eq, not_true_eq_false, if_false,
            Except.ok.injEq] at opened
          subst opened
          exact ih

/-- A call that has loaded the counter runs to its end, whatever the counter is by then. -/
theorem exists_finished {writer : ω} {sequence : Nat} {entry : Entry}
    (storing : writers.phases writer = .storing sequence entry) :
    ∃ after, ReflTransGen (Step admits) writers after ∧
      after.log =
        ⟨(writers.log.file.store sequence (entry.stamped sequence)).persist (sequence + 1),
          sequence + 1⟩ ∧
      after.phases = Function.update writers.phases writer .idle ∧
      after.returned = writers.returned ++ [entry] := by
  have stored : ReflTransGen (Step admits) writers _ := .single (.store writer storing)
  have published := stored.tail (.publish writer (Function.update_self _ _ _))
  have persisted := published.tail (.persist writer (Function.update_self _ _ _))
  have returned := persisted.tail (.finish writer (Function.update_self _ _ _))
  refine ⟨_, returned, rfl, ?_, rfl⟩
  simp only [proceed, Function.update_idem]

/-- From any state two threads can take the same slot: both calls return, and the log holds one
entry more, that of the second. -/
theorem exists_lost {first second : ω} (differ : first ≠ second)
    (firstIdle : writers.phases first = .idle) (secondIdle : writers.phases second = .idle)
    (room : writers.log.nextSeq < maxEvents) (lost kept : Entry) :
    ∃ after, ReflTransGen (Step fun _ _ => True) writers after ∧
      after.returned = writers.returned ++ [lost, kept] ∧
      after.log.nextSeq = writers.log.nextSeq + 1 ∧
      after.log.file.nextSequence = writers.log.nextSeq + 1 ∧
      after.log.file.events = Function.update writers.log.file.events writers.log.nextSeq
        (kept.stamped writers.log.nextSeq) := by
  let begun := writers.proceed first (.storing writers.log.nextSeq lost)
  let joined := begun.proceed second (.storing writers.log.nextSeq kept)
  have starts : Step (fun _ _ => True) writers begun := .start first lost firstIdle room trivial
  have secondOutside : begun.phases second = .idle :=
    (Function.update_of_ne differ.symm _ _).trans secondIdle
  have joins : Step (fun _ _ => True) begun joined :=
    .start second kept secondOutside room trivial
  have firstIn : joined.phases first = .storing writers.log.nextSeq lost :=
    (Function.update_of_ne differ _ _).trans (Function.update_self _ _ _)
  obtain ⟨between, firstRuns, log, phases, returned⟩ := exists_finished firstIn
  have secondIn : between.phases second = .storing writers.log.nextSeq kept := by
    rw [phases, Function.update_of_ne differ.symm]
    exact Function.update_self _ _ _
  obtain ⟨after, secondRuns, logAfter, _, returnedAfter⟩ := exists_finished secondIn
  refine ⟨after, .head starts (.head joins (firstRuns.trans secondRuns)), ?_, ?_, ?_, ?_⟩
  · rw [returnedAfter, returned, List.append_assoc]
    rfl
  · rw [logAfter]
  · rw [logAfter]
    rfl
  · rw [logAfter, log]
    exact Function.update_idem _ _ _

/-- What the single-writer rule is worth. While calls keep apart, the file holds every append that
returned, in order. Whenever two threads are about to call, both may return with one sequence
number, and the file holds only one of the two entries. -/
theorem single_writer_rule :
    (∀ writers : Writers ω, ReflTransGen (Step Alone) created writers →
      ∃ log, openOrCreate (some writers.log.file) = .ok log ∧
        log.size = writers.kept.length ∧ writers.returned.Sublist writers.kept ∧
        ∀ index entry, writers.kept[index]? = some entry →
          log.read index = some (entry.stamped index)) ∧
    ∀ writers : Writers ω, ReflTransGen (Step fun _ _ => True) created writers →
      ∀ first second : ω, first ≠ second → writers.phases first = .idle →
        writers.phases second = .idle → writers.log.size < maxEvents → ∀ lost kept : Entry,
          ∃ after log, ReflTransGen (Step fun _ _ => True) writers after ∧
            after.returned = writers.returned ++ [lost, kept] ∧
            openOrCreate (some after.log.file) = .ok log ∧
            log.size = writers.log.size + 1 ∧
            log.read writers.log.size = some (kept.stamped writers.log.size) := by
  constructor
  · intro writers run
    obtain ⟨single, earlier, same⟩ := exclusive_run run
    have consistent := Run.Consistent.of_run earlier
    obtain ⟨opened, presents⟩ := consistent.reopened
    have known : single.log = writers.log ∧ single.kept = writers.kept ∧
        single.returned = writers.returned := by
      cases same <;> exact ⟨rfl, rfl, rfl⟩
    obtain ⟨sameLog, sameKept, sameReturned⟩ := known
    rw [sameLog] at opened presents
    refine ⟨_, opened, ?_, ?_, fun index entry found => ?_⟩
    · rw [← sameKept, ← consistent.header, sameLog]
      rfl
    · rw [← sameKept, ← sameReturned]
      exact consistent.returnedKept
    · have inKept : single.kept[index]? = some entry := by rw [sameKept]; exact found
      rw [presents.read]
      simp only [EventLog.read, Run.stampedEntries, List.getElem?_mapIdx, inKept]
      rfl
  · intro writers run first second differ firstIdle secondIdle room lost kept
    obtain ⟨after, more, returned, counter, header, events⟩ :=
      exists_lost differ firstIdle secondIdle room lost kept
    have magic := magic_of_run (run.trans more)
    refine ⟨after, ⟨after.log.file, after.log.file.nextSequence⟩, more, returned, ?_, header, ?_⟩
    · simp [openOrCreate, magic]
    · simp [read, header, events, size]

/-- Two threads on a new file: two calls return, and one entry is there. -/
theorem single_writer_rule_created :
    ∃ (after : Writers Bool) (log : MappedLog),
      ReflTransGen (Step fun _ _ => True) created after ∧ after.returned.length = 2 ∧
        openOrCreate (some after.log.file) = .ok log ∧ log.size = 1 := by
  obtain ⟨after, log, run, returned, opened, size, _⟩ := (@single_writer_rule Bool _).2 created
    .refl true false Bool.noConfusion rfl rfl (show 0 < maxEvents by decide)
    ⟨OrderEvent.zero, 0⟩ ⟨OrderEvent.zero, 0⟩
  exact ⟨after, log, run, by rw [returned]; rfl, opened, size⟩

end Writers

end Hft.MappedLog
