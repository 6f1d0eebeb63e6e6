import Hft.EventLog.Stores
import Mathlib.Tactic.IntervalCases

/-!
# Creating the log file, step by step

Whether `open_or_create` makes a new file or trusts the one it finds is decided by the
path alone. A call that is interrupted on a fresh path, by a crash or by a throw, leaves a
file behind that the next call takes for an existing log, so each half-made file meets the
branch that was not written for it. `creation_recoverable_iff` follows any number of
interrupted calls on one path.
-/

namespace Hft

open Logical

/-- What `open` with `O_CREAT` makes: no bytes yet. A byte that is not there reads as zero
once `ftruncate` has extended the file over it. -/
def LogFile.blank : LogFile where
  length := 0
  magic := 0
  nextSequence := 0
  events _ := OrderEvent.zero

namespace MappedLog

/-- The steps of `open_or_create` after any of which a call may end. -/
inductive OpenStep where
  | openFile
  | ftruncate
  | mmap
  | storeMagic
  | storeNextSequence
deriving DecidableEq, Repr

/-- What a step does to the path. -/
def OpenStep.effect (path : Option LogFile) : OpenStep → Option LogFile
  | .openFile => some (path.getD LogFile.blank)
  | .ftruncate => path.map fun file => { file with length := fileSize }
  | .mmap => path
  | .storeMagic => path.map fun file => { file with magic := logMagic }
  | .storeNextSequence => path.map fun file => file.persist 0

/-- The steps of a call, from what `access` says about the path. An existing file is
neither sized nor written. -/
def openSteps : Option LogFile → List OpenStep
  | none => [.openFile, .ftruncate, .mmap, .storeMagic, .storeNextSequence]
  | some _ => [.openFile, .mmap]

/-- What a call leaves at the path when it ends after `done` of its steps. A failed
`ftruncate` or `mmap` throws and so ends the call after the step before it. -/
def interrupted (path : Option LogFile) (done : Nat) : Option LogFile :=
  ((openSteps path).take done).foldl OpenStep.effect path

/-- How a constructor call ends that nothing interrupts. -/
inductive Construction where
  | constructed (log : MappedLog)
  | threw (thrown : Thrown)
  /-- The header lies behind the end of the file, and touching it raises `SIGBUS`. -/
  | killed

def construct (path : Option LogFile) : Construction :=
  if ∃ file ∈ path, file.length = 0 then .killed
  else match openOrCreate path with
    | .ok log => .constructed log
    | .error thrown => .threw thrown

/-- The constructor succeeds with an empty log, and the log takes an event. -/
def Recovers (path : Option LogFile) : Prop :=
  ∃ log, construct path = .constructed log ∧ log.size = 0 ∧
    ∀ now event, (log.append now event).2 = .ok 0

theorem interrupted_of_complete {path : Option LogFile} {done : Nat}
    (complete : (openSteps path).length ≤ done) :
    interrupted path done = (openSteps path).foldl OpenStep.effect path := by
  rw [interrupted, List.take_of_length_le complete]

/-- A call on a fresh path that runs to its end leaves the file that `open_or_create`
starts from. -/
theorem interrupted_none_of_complete {done : Nat} (complete : 5 ≤ done) :
    interrupted none done = some LogFile.created := interrupted_of_complete complete

/-- A file that is there stays as it is, however far the call gets. -/
@[simp] theorem interrupted_some (file : LogFile) (done : Nat) :
    interrupted (some file) done = some file := by
  rcases done with _ | _ | done
  · rfl
  · rfl
  · exact interrupted_of_complete (by simp [openSteps])

theorem foldl_interrupted_some (file : LogFile) (calls : List Nat) :
    calls.foldl interrupted (some file) = some file := by
  induction calls with
  | nil => rfl
  | cons done rest ih => rw [List.foldl_cons, interrupted_some, ih]

/-- Any step at all brings the file into being. -/
theorem interrupted_none_of_pos {done : Nat} (begun : 0 < done) :
    ∃ file, interrupted none done = some file := by
  by_cases complete : 5 ≤ done
  · exact ⟨_, interrupted_none_of_complete complete⟩
  · interval_cases done <;> exact ⟨_, rfl⟩

/-- Of all calls on a path, the first that created the file decides what is found there. -/
theorem foldl_interrupted_none (calls : List Nat) :
    calls.foldl interrupted none =
      (calls.find? fun done => 0 < done).elim none (interrupted none) := by
  induction calls with
  | nil => rfl
  | cons done rest ih =>
      by_cases begun : 0 < done
      · obtain ⟨file, left⟩ := interrupted_none_of_pos begun
        simp [begun, left, foldl_interrupted_some]
      · have idle : done = 0 := Nat.eq_zero_of_not_pos begun
        subst idle
        exact ih

theorem recovers_none : Recovers none := ⟨⟨LogFile.created, 0⟩, rfl, rfl, fun _ _ => rfl⟩

/-- A half-made file is taken up again exactly when the magic was stored. Before that the
next call finds no header to read, or a header of zeros. -/
theorem recovers_interrupted_iff {done : Nat} (begun : 0 < done) :
    Recovers (interrupted none done) ↔ 4 ≤ done := by
  rcases done with _ | _ | _ | _ | done
  · exact absurd begun (Nat.lt_irrefl 0)
  · refine iff_of_false ?_ (by decide)
    rintro ⟨log, ended, _⟩
    cases ended
  · refine iff_of_false ?_ (by decide)
    rintro ⟨log, ended, _⟩
    cases ended
  · refine iff_of_false ?_ (by decide)
    rintro ⟨log, ended, _⟩
    cases ended
  · refine iff_of_true ?_ (by omega)
    have left : interrupted none (done + 4) = some LogFile.created := by
      rcases done with _ | done
      · rfl
      · exact interrupted_none_of_complete (by omega)
    rw [left]
    exact ⟨⟨LogFile.created, 0⟩, rfl, rfl, fun _ _ => rfl⟩

/-- After any number of interrupted constructor calls on a fresh path, the next one yields
an empty usable log exactly when none of them had created the file yet, or the one that
did also stored the magic, its fourth step. -/
theorem creation_recoverable_iff (calls : List Nat) :
    Recovers (calls.foldl interrupted none) ↔
      ∀ done ∈ calls.find? fun done => 0 < done, 4 ≤ done := by
  rw [foldl_interrupted_none]
  cases first : calls.find? fun done => 0 < done with
  | none => exact iff_of_true recovers_none (fun done member => by cases member)
  | some done =>
      have begun : 0 < done := by simpa using List.find?_some first
      simpa using recovers_interrupted_iff begun

/-- A crash right after `ftruncate` leaves a file that no later call accepts. -/
theorem crash_after_ftruncate_bricks_log :
    ¬∀ calls : List Nat, Recovers (calls.foldl interrupted none) := by
  intro always
  obtain ⟨log, ended, _⟩ := always [2]
  cases ended

end MappedLog

end Hft
