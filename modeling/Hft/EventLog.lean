import Hft.OrderEvent

/-!
# The event log, call by call

`EventLog` is what the log's callers see between calls: the events appended so far
and the capacity that bounds them. The separate stores behind one `append`, and
what a crash between them leaves in the file, are in `Hft.EventLog.Stores`.
-/

namespace Hft

/-- Exceptions the modelled calls can raise. -/
inductive Thrown where
  | overflowError (what : String)
  | runtimeError (what : String)
  | sessionNotFound
  | fieldNotFound
  | unsupportedMessageType
deriving DecidableEq, Repr

/-- `MAX_EVENTS`. -/
def maxEvents : Nat := 10000000

/-- The readable events, in sequence order. -/
@[ext]
structure EventLog where
  events : List OrderEvent
  bounded : events.length ≤ maxEvents

namespace EventLog

/-- A freshly created log. -/
def empty : EventLog := ⟨[], Nat.zero_le _⟩

def size (log : EventLog) : Nat := log.events.length

/-- What `append` stores: the caller's event under its sequence number and time. -/
def stamp (sequence now : Nat) (event : OrderEvent) : OrderEvent :=
  { event with sequence := sequence, timestampNs := now }

/-- `append` at clock reading `now`. The caller's copy of the event stays unstamped. -/
def append (log : EventLog) (now : Nat) (event : OrderEvent) : Except Thrown (EventLog × Nat) :=
  if room : log.size < maxEvents then
    .ok (⟨log.events ++ [stamp log.size now event], by
      rw [List.length_append, List.length_singleton]
      exact room⟩, log.size)
  else .error (.overflowError "EventLog full")

def read (log : EventLog) (sequence : Nat) : Option OrderEvent := log.events[sequence]?

/-- `replay`, with the callback's target passed along. -/
def replay {σ : Type} (log : EventLog) (fn : σ → OrderEvent → σ) (target : σ) : σ :=
  log.events.foldl fn target

/-- Replaying one more event applies it last. -/
theorem replay_append {σ : Type} {log longer : EventLog} {event : OrderEvent}
    (events : longer.events = log.events ++ [event]) (fn : σ → OrderEvent → σ) (target : σ) :
    longer.replay fn target = fn (log.replay fn target) event := by
  simp [replay, events]

/-- A successful append had room and added one stamped event. -/
theorem append_eq_ok_iff {log after : EventLog} {now sequence : Nat} {event : OrderEvent} :
    log.append now event = .ok (after, sequence) ↔
      log.size < maxEvents ∧ after.events = log.events ++ [stamp log.size now event] ∧
        sequence = log.size := by
  unfold append
  split
  · rename_i room
    constructor
    · intro equal
      cases equal
      exact ⟨room, rfl, rfl⟩
    · rintro ⟨_, events, rfl⟩
      obtain ⟨stored, _⟩ := after
      subst events
      rfl
  · rename_i full
    constructor
    · intro equal
      cases equal
    · rintro ⟨room, _, _⟩
      exact absurd room full

theorem exists_append_of_room {log : EventLog} (room : log.size < maxEvents) (now : Nat)
    (event : OrderEvent) : ∃ after, log.append now event = .ok (after, log.size) := by
  unfold append
  rw [dif_pos room]
  exact ⟨_, rfl⟩

theorem append_of_full {log : EventLog} (full : maxEvents ≤ log.size) (now : Nat)
    (event : OrderEvent) : log.append now event = .error (.overflowError "EventLog full") := by
  simp [append, Nat.not_lt.mpr full]

end EventLog

end Hft
