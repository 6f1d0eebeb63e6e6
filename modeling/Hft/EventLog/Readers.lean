import Hft.EventLog.Stores

/-!
# Readers beside the writer

`replay`, `read` and `size` may be called from any thread while `append` is under way. A reader
loads `next_seq_` once and then visits slots for as long as it likes; the counter is stored
with release and loaded with acquire, so whoever sees it sees the slots below it, and loads
and stores may be taken one at a time. The writer only ever touches the slot at the counter,
also while that slot is half written, so what a reader makes of its visits is the log as it
was when the counter was loaded: `readers_see_snapshots`.
-/

namespace Hft.MappedLog

open Relation

namespace Run

/-- The entries that a reader of the process may see. -/
def published (run : Run) : List Entry := run.written.take run.log.nextSeq

end Run

/-- One load of `next_seq_`, with what was published and which appends had returned. -/
structure Load where
  head : Nat
  published : List Entry
  returned : List Entry

/-- Where a reader is in `replay`, or with the pointer that `read` gave it. -/
inductive Reading where
  | idle
  | replaying (load : Load) (seen : List OrderEvent)
  | holding (load : Load) (sequence : Nat)

/-- What a reader has found out. -/
inductive Observation where
  | replayed (load : Load) (events : List OrderEvent)
  | read (load : Load) (sequence : Nat) (event : OrderEvent)
  | missed (load : Load) (sequence : Nat)
  | sized (load : Load) (count : Nat)

def Observation.load : Observation → Load
  | .replayed load _ => load
  | .read load _ _ => load
  | .missed load _ => load
  | .sized load _ => load

/-- The log in use with its readers, the loads of the process in order, and what readers
have found out in this process and in those before it. -/
structure Shared (ι : Type) where
  run : Run
  readers : ι → Reading
  loads : List Load
  observed : List Observation

namespace Shared

variable {ι : Type}

/-- A new file, just opened, and nobody reading. -/
def created : Shared ι := ⟨Run.created, fun _ => .idle, [], []⟩

/-- A load of the counter as it stands. -/
def loadNow (shared : Shared ι) : Load :=
  ⟨shared.run.log.nextSeq, shared.run.published, shared.run.returned⟩

variable [DecidableEq ι]

/-- One reader moves on. -/
def advance (shared : Shared ι) (reader : ι) (reading : Reading) : Shared ι :=
  { shared with readers := Function.update shared.readers reader reading }

/-- A step of the writer, of one reader, or the end of the process. The counter of a
process that lives on does not go back; `step_of_run` shows that no step of the log is left
out. A pointer that `read` returned may be followed at any time, and more than once. -/
inductive Step (shared : Shared ι) : Shared ι → Prop where
  | write {after : Run} (taken : Run.Step shared.run after)
      (alive : shared.run.log.nextSeq ≤ after.log.nextSeq) :
      Step shared { shared with run := after }
  | crash {log : MappedLog} (opened : openOrCreate (some shared.run.log.file) = .ok log) :
      Step shared { shared with
        run := { shared.run with log := log, phase := .idle }
        readers := fun _ => .idle
        loads := [] }
  | replayStart {reader : ι} (idle : shared.readers reader = .idle) :
      Step shared { shared.advance reader (.replaying shared.loadNow []) with
        loads := shared.loads ++ [shared.loadNow] }
  | replayVisit {reader : ι} {load : Load} {seen : List OrderEvent}
      (replaying : shared.readers reader = .replaying load seen)
      (more : seen.length < load.head) :
      Step shared (shared.advance reader
        (.replaying load (seen ++ [shared.run.log.file.events seen.length])))
  | replayEnd {reader : ι} {load : Load} {seen : List OrderEvent}
      (replaying : shared.readers reader = .replaying load seen)
      (done : load.head ≤ seen.length) :
      Step shared { shared.advance reader .idle with
        observed := shared.observed ++ [.replayed load seen] }
  | readFound {reader : ι} (sequence : Nat) (idle : shared.readers reader = .idle)
      (counted : sequence < shared.run.log.nextSeq) :
      Step shared { shared.advance reader (.holding shared.loadNow sequence) with
        loads := shared.loads ++ [shared.loadNow] }
  | readMissed {reader : ι} (sequence : Nat) (idle : shared.readers reader = .idle)
      (beyond : shared.run.log.nextSeq ≤ sequence) :
      Step shared { shared with
        loads := shared.loads ++ [shared.loadNow]
        observed := shared.observed ++ [.missed shared.loadNow sequence] }
  | size {reader : ι} (idle : shared.readers reader = .idle) :
      Step shared { shared with
        loads := shared.loads ++ [shared.loadNow]
        observed := shared.observed ++ [.sized shared.loadNow shared.run.log.size] }
  | follow {reader : ι} {load : Load} {sequence : Nat}
      (holding : shared.readers reader = .holding load sequence) :
      Step shared { shared with
        observed := shared.observed ++
          [.read load sequence (shared.run.log.file.events sequence)] }
  | drop {reader : ι} {load : Load} {sequence : Nat}
      (holding : shared.readers reader = .holding load sequence) :
      Step shared (shared.advance reader .idle)

end Shared

/-! ## What the writer leaves alone -/

namespace Run

variable {run after : Run}

/-- The entries up to the counter stand where they stood, whatever the writer does next. -/
theorem take_written_step (consistent : run.Consistent) (taken : Step run after) :
    after.written.take run.log.nextSeq = run.published := by
  have reached := consistent.reached
  have prefixLength := consistent.keptWritten.length_le
  unfold Reached at reached
  unfold published
  cases taken with
  | tear garbage storing =>
      rw [storing] at reached
      obtain ⟨nextSeq, rfl, _⟩ := reached
      rw [nextSeq, List.take_take, Nat.min_self]
  | store storing =>
      rw [storing] at reached
      obtain ⟨nextSeq, rfl, _⟩ := reached
      have whole : (run.written.take run.kept.length).length = run.kept.length := by
        rw [List.length_take, Nat.min_eq_left prefixLength]
      rw [nextSeq, List.take_append_of_le_length whole.ge, List.take_take, Nat.min_self]
  | start entry idle room => rfl
  | refuse entry idle threw => rfl
  | publish stored => rfl
  | persist published => rfl
  | finish persisted => rfl
  | reopen opened => rfl

/-- While the process lives, published entries stay published. -/
theorem published_prefix_step (consistent : run.Consistent) (taken : Step run after)
    (alive : run.log.nextSeq ≤ after.log.nextSeq) : run.published <+: after.published := by
  rw [← take_written_step consistent taken]
  exact List.take_prefix_take_left alive

theorem kept_prefix_step (taken : Step run after) : run.kept <+: after.kept := by
  cases taken with
  | persist published => exact List.prefix_append _ _
  | start entry idle room => exact List.prefix_rfl
  | refuse entry idle threw => exact List.prefix_rfl
  | tear garbage storing => exact List.prefix_rfl
  | store storing => exact List.prefix_rfl
  | publish stored => exact List.prefix_rfl
  | finish persisted => exact List.prefix_rfl
  | reopen opened => exact List.prefix_rfl

theorem returned_prefix_step (taken : Step run after) : run.returned <+: after.returned := by
  cases taken with
  | finish persisted => exact List.prefix_append _ _
  | start entry idle room => exact List.prefix_rfl
  | refuse entry idle threw => exact List.prefix_rfl
  | tear garbage storing => exact List.prefix_rfl
  | store storing => exact List.prefix_rfl
  | publish stored => exact List.prefix_rfl
  | persist published => exact List.prefix_rfl
  | reopen opened => exact List.prefix_rfl

namespace Consistent

theorem length_published (consistent : run.Consistent) :
    run.published.length = run.log.nextSeq := by
  rw [published, List.length_take, Nat.min_eq_left consistent.counters.2]

/-- What is kept is published, and all but the newest published entry is kept. -/
theorem kept_published (consistent : run.Consistent) :
    run.kept <+: run.published ∧ run.published.dropLast <+: run.kept := by
  have lower := consistent.counters.1
  rw [consistent.header] at lower
  have kept : run.kept = run.published.take run.kept.length := by
    rw [published, List.take_take, Nat.min_eq_left lower, consistent.take_written]
  have upper : run.published.length - 1 ≤ run.kept.length := by
    rw [consistent.length_published]
    have reached := consistent.reached
    unfold Reached at reached
    cases phase : run.phase <;> rw [phase] at reached <;> simp only at reached <;> omega
  constructor
  · rw [kept]
    exact List.take_prefix _ _
  · rw [List.dropLast_eq_take, kept]
    exact List.take_prefix_take_left upper

/-- A published entry is what its slot holds. -/
theorem events_published (consistent : run.Consistent) {index : Nat} {entry : Entry}
    (found : run.published[index]? = some entry) :
    run.log.file.events index = entry.stamped index := by
  rw [published, List.getElem?_take] at found
  split at found
  · exact consistent.slots index entry found
  · cases found

theorem returned_published (consistent : run.Consistent) :
    run.returned.Sublist run.published :=
  consistent.returnedKept.trans consistent.kept_published.1.sublist

end Consistent

end Run

/-! ## The invariant -/

/-- A load counts what was published, which holds every append that had returned. -/
structure Load.Sound (load : Load) : Prop where
  counts : load.head = load.published.length
  returned : load.returned.Sublist load.published

/-- What was found out is what the log held when the counter was loaded. -/
def Observation.Faithful : Observation → Prop
  | .replayed load events => events = Run.stampedEntries load.published
  | .read load sequence event =>
      ∃ entry, load.published[sequence]? = some entry ∧ event = entry.stamped sequence
  | .missed load sequence => load.published.length ≤ sequence
  | .sized load count => count = load.published.length

/-- A later load finds all that an earlier one found, and more may have returned. -/
def Load.Precedes (earlier later : Load) : Prop :=
  earlier.published <+: later.published ∧ earlier.returned <+: later.returned

namespace Shared

variable {ι : Type}

/-- What a reader under way goes by. -/
def Follows (shared : Shared ι) : Reading → Prop
  | .idle => True
  | .replaying load seen => load ∈ shared.loads ∧ seen <+: Run.stampedEntries load.published
  | .holding load sequence => load ∈ shared.loads ∧ sequence < load.head

/-- The invariant of the log with its readers. -/
structure Safe (shared : Shared ι) : Prop where
  consistent : shared.run.Consistent
  sound : ∀ load ∈ shared.loads, load.Sound
  current : ∀ load ∈ shared.loads, load.Precedes shared.loadNow
  ordered : shared.loads.Pairwise Load.Precedes
  readers : ∀ reader, shared.Follows (shared.readers reader)
  faithful : ∀ observation ∈ shared.observed, observation.Faithful
  attested : ∀ observation ∈ shared.observed, observation.load.Sound
  durable : ∀ observation ∈ shared.observed,
    observation.load.published.dropLast <+: shared.run.kept

theorem safe_created : (created : Shared ι).Safe where
  consistent := Run.consistent_created
  sound _ member := absurd member List.not_mem_nil
  current _ member := absurd member List.not_mem_nil
  ordered := .nil
  readers _ := trivial
  faithful _ member := absurd member List.not_mem_nil
  attested _ member := absurd member List.not_mem_nil
  durable _ member := absurd member List.not_mem_nil

variable {shared after : Shared ι}

namespace Safe

theorem sound_loadNow (safe : shared.Safe) : shared.loadNow.Sound where
  counts := safe.consistent.length_published.symm
  returned := safe.consistent.returned_published

/-- All but the newest entry that a load of this process found is kept. -/
theorem dropLast_kept (safe : shared.Safe) {load : Load} (member : load ∈ shared.loads) :
    load.published.dropLast <+: shared.run.kept := by
  have within := (safe.current load member).1
  have shorter : load.published.dropLast <+: shared.run.published.dropLast := by
    rw [List.dropLast_eq_take, List.dropLast_eq_take]
    have length := within.length_le
    exact (within.take _).trans (List.take_prefix_take_left (by
      change load.published.length ≤ shared.run.published.length at length
      omega))
  exact shorter.trans safe.consistent.kept_published.2

/-- A slot that a load of this process counted still holds what it held. -/
theorem events_loaded (safe : shared.Safe) {load : Load} (member : load ∈ shared.loads)
    {index : Nat} {entry : Entry} (found : load.published[index]? = some entry) :
    shared.run.log.file.events index = entry.stamped index := by
  obtain ⟨below, _⟩ := List.getElem?_eq_some_iff.mp found
  apply safe.consistent.events_published
  obtain ⟨rest, whole⟩ := (safe.current load member).1
  change load.published ++ rest = shared.run.published at whole
  rw [← whole, List.getElem?_append_left below]
  exact found

/-- One reader moves on, by what the loads of the process allow it. -/
theorem advance [DecidableEq ι] (safe : shared.Safe) (reader : ι) {reading : Reading}
    (follows : shared.Follows reading) : (shared.advance reader reading).Safe where
  consistent := safe.consistent
  sound := safe.sound
  current := safe.current
  ordered := safe.ordered
  readers other := by
    by_cases same : other = reader
    · subst same
      simp only [Shared.advance, Function.update_self]
      exact follows
    · simp only [Shared.advance, Function.update_of_ne same]
      exact safe.readers other
  faithful := safe.faithful
  attested := safe.attested
  durable := safe.durable

/-- Something is found out that a load of this process bears out. -/
theorem observe (safe : shared.Safe) {observation : Observation}
    (faithful : observation.Faithful) (member : observation.load ∈ shared.loads) :
    Safe { shared with observed := shared.observed ++ [observation] } where
  consistent := safe.consistent
  sound := safe.sound
  current := safe.current
  ordered := safe.ordered
  readers := safe.readers
  faithful other inObserved := by
    obtain old | new := List.mem_append.mp inObserved
    · exact safe.faithful other old
    · rw [List.mem_singleton.mp new]
      exact faithful
  attested other inObserved := by
    obtain old | new := List.mem_append.mp inObserved
    · exact safe.attested other old
    · rw [List.mem_singleton.mp new]
      exact safe.sound _ member
  durable other inObserved := by
    obtain old | new := List.mem_append.mp inObserved
    · exact safe.durable other old
    · rw [List.mem_singleton.mp new]
      exact safe.dropLast_kept member

/-- The counter is loaded. -/
theorem load (safe : shared.Safe) :
    Safe { shared with loads := shared.loads ++ [shared.loadNow] } where
  consistent := safe.consistent
  sound load member := by
    obtain old | new := List.mem_append.mp member
    · exact safe.sound load old
    · rw [List.mem_singleton.mp new]
      exact safe.sound_loadNow
  current load member := by
    obtain old | new := List.mem_append.mp member
    · exact safe.current load old
    · rw [List.mem_singleton.mp new]
      exact ⟨List.prefix_rfl, List.prefix_rfl⟩
  ordered := List.pairwise_append.mpr ⟨safe.ordered, List.pairwise_singleton _ _,
    fun load member later last => by
      rw [List.mem_singleton.mp last]
      exact safe.current load member⟩
  readers reader := by
    have follows := safe.readers reader
    cases reading : shared.readers reader with
    | idle => trivial
    | replaying load seen =>
        rw [reading] at follows
        exact ⟨List.mem_append_left _ follows.1, follows.2⟩
    | holding load sequence =>
        rw [reading] at follows
        exact ⟨List.mem_append_left _ follows.1, follows.2⟩
  faithful := safe.faithful
  attested := safe.attested
  durable := safe.durable

/-- The writer moves on beside the readers. -/
theorem write (safe : shared.Safe) {run : Run} (taken : Run.Step shared.run run)
    (alive : shared.run.log.nextSeq ≤ run.log.nextSeq) :
    Safe { shared with run := run } where
  consistent := safe.consistent.step taken
  sound := safe.sound
  current load member := ⟨(safe.current load member).1.trans
      (Run.published_prefix_step safe.consistent taken alive),
    (safe.current load member).2.trans (Run.returned_prefix_step taken)⟩
  ordered := safe.ordered
  readers := safe.readers
  faithful := safe.faithful
  attested := safe.attested
  durable observation member :=
    (safe.durable observation member).trans (Run.kept_prefix_step taken)

/-- The process ends, and the next one opens the file. -/
theorem crash (safe : shared.Safe) {log : MappedLog}
    (opened : openOrCreate (some shared.run.log.file) = .ok log) :
    Safe (ι := ι) { shared with
      run := { shared.run with log := log, phase := .idle }
      readers := fun _ => .idle
      loads := [] } where
  consistent := safe.consistent.step (.reopen opened)
  sound _ member := absurd member List.not_mem_nil
  current _ member := absurd member List.not_mem_nil
  ordered := .nil
  readers _ := trivial
  faithful := safe.faithful
  attested := safe.attested
  durable := safe.durable

/-- One more slot of the snapshot. -/
theorem visit (safe : shared.Safe) {load : Load} {seen : List OrderEvent}
    (follows : shared.Follows (.replaying load seen)) (more : seen.length < load.head) :
    shared.Follows (.replaying load (seen ++ [shared.run.log.file.events seen.length])) := by
  obtain ⟨member, soFar⟩ := follows
  refine ⟨member, ?_⟩
  rw [(safe.sound load member).counts] at more
  have found := List.getElem?_eq_getElem more
  have next := safe.events_loaded member found
  have slot : (Run.stampedEntries load.published)[seen.length]? =
      some (shared.run.log.file.events seen.length) := by
    rw [next, Run.stampedEntries, List.getElem?_mapIdx, found, Option.map_some]
  rw [List.prefix_iff_eq_take] at soFar ⊢
  rw [List.length_append, List.length_singleton, List.take_add_one, slot, ← soFar]
  rfl

variable [DecidableEq ι]

/-- Every step of the writer or of a reader keeps the invariant. -/
theorem step (safe : shared.Safe) (taken : Step shared after) : after.Safe := by
  cases taken with
  | write taken alive => exact safe.write taken alive
  | crash opened => exact safe.crash opened
  | replayStart idle =>
      exact safe.load.advance _ ⟨List.mem_append_right _ List.mem_cons_self, List.nil_prefix⟩
  | @replayVisit reader load seen replaying more =>
      have follows := safe.readers reader
      rw [replaying] at follows
      exact safe.advance reader (safe.visit follows more)
  | @replayEnd reader load seen replaying done =>
      have follows := safe.readers reader
      rw [replaying] at follows
      obtain ⟨member, soFar⟩ := follows
      have whole : seen = Run.stampedEntries load.published := by
        apply soFar.eq_of_length_le
        rw [Run.stampedEntries, List.length_mapIdx, ← (safe.sound load member).counts]
        exact done
      exact (@advance _ _ _ safe reader .idle trivial).observe whole member
  | readFound sequence idle counted =>
      exact safe.load.advance _ ⟨List.mem_append_right _ List.mem_cons_self, counted⟩
  | readMissed sequence idle beyond =>
      refine safe.load.observe ?_ (List.mem_append_right _ List.mem_cons_self)
      change shared.run.published.length ≤ sequence
      rw [safe.consistent.length_published]
      exact beyond
  | size idle =>
      exact safe.load.observe safe.consistent.length_published.symm
        (List.mem_append_right _ List.mem_cons_self)
  | @follow reader load sequence holding =>
      have follows := safe.readers reader
      rw [holding] at follows
      obtain ⟨member, below⟩ := follows
      rw [(safe.sound load member).counts] at below
      have found := List.getElem?_eq_getElem below
      exact safe.observe ⟨_, found, safe.events_loaded member found⟩ member
  | drop holding => exact safe.advance _ trivial

theorem of_run (reached : ReflTransGen Step created shared) : shared.Safe := by
  induction reached with
  | refl => exact safe_created
  | tail _ taken ih => exact ih.step taken

end Safe

variable [DecidableEq ι]

/-- Every step of the log is one beside its readers: the writer's, or the end of the process. -/
theorem step_of_run (safe : shared.Safe) {run : Run} (taken : Run.Step shared.run run) :
    Step shared { shared with run := run } ∨
      Step shared { shared with run := run, readers := fun _ => .idle, loads := [] } := by
  have counted : (∃ log, openOrCreate (some shared.run.log.file) = .ok log ∧
        run = { shared.run with log := log, phase := .idle }) ∨
      shared.run.log.nextSeq ≤ run.log.nextSeq := by
    have reached := safe.consistent.reached
    unfold Run.Reached at reached
    cases taken with
    | reopen opened => exact .inl ⟨_, opened, rfl⟩
    | publish stored =>
        rw [stored] at reached
        obtain ⟨nextSeq, same, _⟩ := reached
        right
        simp only
        omega
    | refuse entry idle threw =>
        right
        simp only [append]
        split
        · exact le_refl _
        · exact Nat.le_succ _
    | start entry idle room => exact .inr (le_refl _)
    | tear garbage storing => exact .inr (le_refl _)
    | store storing => exact .inr (le_refl _)
    | persist published => exact .inr (le_refl _)
    | finish persisted => exact .inr (le_refl _)
  obtain ⟨log, opened, rfl⟩ | alive := counted
  · exact .inr (.crash opened)
  · exact .inl (.write taken alive)

/-- Whatever any reader finds out, at whatever moment of the writer's stores, is what the log
held when the counter was loaded: no half-written slot, no gap, and every append that had
returned. A later load finds all that an earlier one found, and a crash can take back no
more than the newest event that any reader has seen. -/
theorem readers_see_snapshots (reached : ReflTransGen Step created shared) :
    (∀ observation ∈ shared.observed, observation.Faithful ∧ observation.load.Sound ∧
      observation.load.published.dropLast <+: shared.run.kept) ∧
    shared.loads.Pairwise Load.Precedes := by
  have safe := Safe.of_run reached
  exact ⟨fun observation member => ⟨safe.faithful observation member,
    safe.attested observation member, safe.durable observation member⟩, safe.ordered⟩

/-- The first event is published, and a reader sets out. -/
def setOut : Shared Unit where
  run :=
    { log := ⟨LogFile.created.store 0 (Run.sampleEntry.stamped 0), 1⟩
      phase := .published 0 Run.sampleEntry
      written := [Run.sampleEntry]
      kept := []
      returned := [] }
  readers := Function.update (fun _ => .idle) () (.replaying ⟨1, [Run.sampleEntry], []⟩ [])
  loads := [⟨1, [Run.sampleEntry], []⟩]
  observed := []

theorem reached_setOut : ReflTransGen Step created setOut := by
  have started : Step (created : Shared Unit) _ := .write (.start Run.sampleEntry rfl (by decide))
    (le_refl _)
  have stored := (ReflTransGen.single started).tail (.write (.store rfl) (le_refl _))
  have published := stored.tail (.write (.publish rfl) (Nat.zero_le _))
  exact published.tail (@Step.replayStart Unit _ _ () rfl)

/-- The reader comes to the event after the process has ended the append and begun to tear the
next slot. It has seen one event. -/
theorem readers_see_first :
    ∃ shared : Shared Unit, ReflTransGen Step created shared ∧
      ∃ load events, Observation.replayed load events ∈ shared.observed ∧
        events = [Run.sampleEntry.stamped 0] := by
  have persisted := reached_setOut.tail (.write (.persist rfl) (le_refl _))
  have finished := persisted.tail (.write (.finish rfl) (le_refl _))
  have again := finished.tail (.write (.start Run.sampleEntry rfl (by decide)) (le_refl _))
  have torn := again.tail (.write (.tear OrderEvent.zero rfl) (le_refl _))
  have visited := torn.tail (@Step.replayVisit _ _ _ () _ _ rfl (by decide))
  have ended := visited.tail (@Step.replayEnd _ _ _ () _ _ rfl (by decide))
  refine ⟨_, ended, _, _, List.mem_append_right _ List.mem_cons_self, ?_⟩
  exact ((readers_see_snapshots ended).1 _ (List.mem_append_right _ List.mem_cons_self)).1

end Shared

end Hft.MappedLog
