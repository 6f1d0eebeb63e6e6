import Hft.EventLog.Writers
import Hft.Gateway.Interleaving

/-!
# Crashes in the middle of a call

The two threads over the log as it is stored: an `append` is its separate stores, and the
process may end between any two of them, or anywhere else in `send_order` and `onMessage`.
`append` is to be called from a single writer thread, and nothing in the code keeps the two
threads apart; these are the runs in which only one of them is in `append` at a time, and
`MappedLog.Writers.single_writer_rule` says what becomes of the others. Once the header store of
an append has run, the call takes effect although the process never comes to apply it; before, it
leaves no trace. `view` reads such a process as one with atomic appends, so what is known of those
carries over (`Host.refines`), and `restart_settles` says what the next process finds.
-/

namespace Hft

open Logical Relation

namespace MappedLog

/-- The entry that is being stored. -/
def Phase.pending : Phase → Option Entry
  | .idle => none
  | .storing _ entry => some entry
  | .stored _ entry => some entry
  | .published _ entry => some entry
  | .persisted entry => some entry

/-- The header store has run. -/
def Phase.committed : Phase → Bool
  | .persisted _ => true
  | _ => false

end MappedLog

namespace Gateway

open MappedLog (Entry Phase Run openOrCreate)

/-- Where the strategy thread is in `send_order`. -/
inductive Strategy where
  | idle
  | numbered (event : OrderEvent)
  | appending (event : OrderEvent)
  | logged (event : OrderEvent)
  | applied (event : OrderEvent)

/-- Where the I/O thread is in `onMessage`. -/
inductive Inbound where
  | idle
  | translated (event : OrderEvent)
  | appending (event : OrderEvent)
  | logged (event : OrderEvent)
  | tracked (event : OrderEvent)

namespace Strategy

/-- The thread as one whose appends are atomic. -/
def sending (committed : Bool) : Strategy → Sending
  | .idle => .idle
  | .numbered event => .numbered event
  | .appending event => if committed then .logged event else .numbered event
  | .logged event => .logged event
  | .applied _ => .idle

/-- The event the thread is appending. -/
def writing : Strategy → List OrderEvent
  | .appending event => [event]
  | _ => []

/-- The event that was appended and is not yet handed over. -/
def unsent : Strategy → List OrderEvent
  | .logged event => [event]
  | .applied event => [event]
  | _ => []

end Strategy

namespace Inbound

/-- The thread as one whose appends are atomic. -/
def receiving (committed : Bool) : Inbound → Receiving
  | .idle => .idle
  | .translated event => .translated event
  | .appending event => if committed then .logged event else .translated event
  | .logged event => .logged event
  | .tracked event => .tracked event

/-- The event the thread is appending. -/
def writing : Inbound → List OrderEvent
  | .appending event => [event]
  | _ => []

end Inbound

/-- A process on its log file, with the orders that it and the processes before it handed
to the session. -/
structure Host where
  run : Run
  tracker : PositionTracker
  orders : OrderManager
  limits : RiskLimits
  connected : Bool
  orderCounter : Nat
  strategy : Strategy
  inbound : Inbound
  handed : List OrderEvent

namespace Host

/-- The first process, on a new file. -/
def created (limits : RiskLimits) : Host :=
  ⟨Run.created, PositionTracker.initial, OrderManager.initial, limits, false, 0, .idle, .idle, []⟩

/-- The log as the entries whose header store ran. -/
def log (host : Host) : EventLog :=
  ⟨(Run.stampedEntries host.run.kept).take maxEvents, List.length_take_le _ _⟩

/-- The gateway of the process, on that log. -/
def gateway (host : Host) : FIXGateway :=
  ⟨host.log, host.tracker, host.orders, host.limits, host.connected, host.orderCounter⟩

/-- The process as one whose appends are atomic. -/
def view (host : Host) : Process :=
  ⟨host.gateway, host.strategy.sending host.run.phase.committed,
    host.inbound.receiving host.run.phase.committed⟩

/-- One step of a thread or of the append that it is in, or the end of the process, at any
point and for any reason. A thread enters `append` (`free`) only while the other is outside it,
and no report comes on an order whose `send_order` is under way (`apart`); the code sees to
neither. -/
inductive Step (arith : Arithmetic) (host : Host) : Host → Prop where
  | sendStart (args : FIXGateway.SendArgs) (idle : host.strategy = .idle)
      (connected : host.connected = true)
      (apart : ∀ reported ∈ host.view.receiving.inFlight,
        reported.orderId.string ≠ (host.gateway.newOrderEvent args).orderId.string) :
      Step arith host { host with
        orderCounter := host.gateway.nextOrderId.2.orderCounter
        strategy := .numbered (host.gateway.newOrderEvent args) }
  | sendAppend {event : OrderEvent} (now : Nat) (numbered : host.strategy = .numbered event)
      (free : host.run.phase = .idle) (room : host.run.log.nextSeq < maxEvents) :
      Step arith host { host with
        run := { host.run with phase := .storing host.run.log.nextSeq ⟨event, now⟩ }
        strategy := .appending event }
  | sendThrow {event : OrderEvent} (numbered : host.strategy = .numbered event)
      (free : host.run.phase = .idle) (full : maxEvents ≤ host.run.log.nextSeq) :
      Step arith host { host with strategy := .idle }
  | store {after : Run} (taken : Run.Step host.run after) (busy : host.run.phase ≠ .idle)
      (still : after.phase ≠ .idle) : Step arith host { host with run := after }
  | sendReturn {event : OrderEvent} {entry : Entry}
      (appending : host.strategy = .appending event)
      (persisted : host.run.phase = .persisted entry) :
      Step arith host { host with
        run := { host.run with phase := .idle, returned := host.run.returned ++ [entry] }
        strategy := .logged event }
  | sendApply {event : OrderEvent} (logged : host.strategy = .logged event) :
      Step arith host { host with
        orders := host.orders.applyEvent arith event
        strategy := .applied event }
  | hand {event : OrderEvent} (applied : host.strategy = .applied event) :
      Step arith host { host with strategy := .idle, handed := host.handed ++ [event] }
  | receive {event : OrderEvent} (report : ExecutionReport) (idle : host.inbound = .idle)
      (translated : MessageTranslator.fromExecutionReport arith report = .ok (some event))
      (apart : ∀ placed ∈ host.view.sending.inFlight,
        event.orderId.string ≠ placed.orderId.string) :
      Step arith host { host with inbound := .translated event }
  | receiveAppend {event : OrderEvent} (now : Nat) (translated : host.inbound = .translated event)
      (free : host.run.phase = .idle) (room : host.run.log.nextSeq < maxEvents) :
      Step arith host { host with
        run := { host.run with phase := .storing host.run.log.nextSeq ⟨event, now⟩ }
        inbound := .appending event }
  | receiveReturn {event : OrderEvent} {entry : Entry}
      (appending : host.inbound = .appending event)
      (persisted : host.run.phase = .persisted entry) :
      Step arith host { host with
        run := { host.run with phase := .idle, returned := host.run.returned ++ [entry] }
        inbound := .logged event }
  | receiveTrack {event : OrderEvent} (logged : host.inbound = .logged event) :
      Step arith host { host with
        tracker := host.tracker.applyEvent arith event
        inbound := .tracked event }
  | receiveApply {event : OrderEvent} (tracked : host.inbound = .tracked event) :
      Step arith host { host with
        orders := host.orders.applyEvent arith event
        inbound := .idle }
  | markToMarket (sym : StringView) (mktPriceFp : Int) :
      Step arith host { host with tracker := host.tracker.markToMarket arith sym mktPriceFp }
  | onLogon : Step arith host { host with connected := true }
  | onLogout : Step arith host { host with connected := false }
  | restart (limits : RiskLimits) {log : MappedLog}
      (opened : openOrCreate (some host.run.log.file) = .ok log) :
      Step arith host
        { run := { host.run with log := log, phase := .idle }
          tracker := log.replay (PositionTracker.applyEvent arith) PositionTracker.initial
          orders := log.replay (OrderManager.applyEvent arith) OrderManager.initial
          limits := limits
          connected := false
          orderCounter := 0
          strategy := .idle
          inbound := .idle
          handed := host.handed }

/-- The log is consistent, the entry being stored is that of the one thread that is in
`append`, and what was handed over or is about to be is kept. -/
structure Sound (host : Host) : Prop where
  consistent : host.run.Consistent
  writer : (host.run.phase.pending.map Entry.event).toList =
    host.strategy.writing ++ host.inbound.writing
  durable : ∀ event ∈ host.handed ++ host.strategy.unsent,
    ∃ entry ∈ host.run.kept, entry.event = event

variable {arith : Arithmetic} {host after : Host}

theorem sound_created (limits : RiskLimits) : (created limits).Sound where
  consistent := Run.consistent_created
  writer := rfl
  durable _ member := absurd member List.not_mem_nil

theorem events_log (consistent : host.run.Consistent) :
    host.log.events = Run.stampedEntries host.run.kept :=
  List.take_of_length_le (by simpa [Run.stampedEntries] using consistent.bounded)

theorem size_log (consistent : host.run.Consistent) : host.log.size = host.run.kept.length := by
  rw [EventLog.size, events_log consistent, Run.stampedEntries, List.length_mapIdx]

/-- Between appends the volatile counter is the size of the log. -/
theorem nextSeq_of_free (consistent : host.run.Consistent) (free : host.run.phase = .idle) :
    host.run.log.nextSeq = host.log.size := by
  have reached := consistent.reached
  unfold Run.Reached at reached
  rw [free] at reached
  rw [size_log consistent]
  exact reached

/-- One more header store is one more event in the log. -/
theorem append_log (consistent : host.run.Consistent) {run : Run} (next : run.Consistent)
    {entry : Entry} (kept : run.kept = host.run.kept ++ [entry]) :
    host.log.append entry.now entry.event =
      .ok (log { host with run := run }, host.run.kept.length) := by
  have bounded := next.bounded
  rw [kept, List.length_append, List.length_singleton] at bounded
  apply EventLog.append_eq_ok_iff.mpr
  refine ⟨?_, ?_, (size_log consistent).symm⟩
  · rw [size_log consistent]
    exact bounded
  · rw [@events_log { host with run := run } next, events_log consistent, size_log consistent, kept,
      Run.stampedEntries, List.mapIdx_append, List.mapIdx_singleton, Nat.zero_add]
    rfl

/-- A store of an append either leaves what a crash would keep as it is, or is the header
store. -/
theorem store_cases {run after : Run} (taken : Run.Step run after) (busy : run.phase ≠ .idle)
    (still : after.phase ≠ .idle) :
    after.phase.pending = run.phase.pending ∧
      ((after.kept = run.kept ∧ after.phase.committed = run.phase.committed) ∨
        ∃ entry, run.phase.pending = some entry ∧ run.phase.committed = false ∧
          after.phase.committed = true ∧ after.kept = run.kept ++ [entry]) := by
  cases taken with
  | start entry idle room => exact absurd idle busy
  | refuse entry idle threw => exact absurd idle busy
  | tear garbage storing => exact ⟨rfl, .inl ⟨rfl, rfl⟩⟩
  | store storing => exact ⟨by rw [storing]; rfl, .inl ⟨rfl, by rw [storing]; rfl⟩⟩
  | publish stored => exact ⟨by rw [stored]; rfl, .inl ⟨rfl, by rw [stored]; rfl⟩⟩
  | @persist sequence entry published =>
      exact ⟨by rw [published]; rfl, .inr ⟨entry, by rw [published]; rfl, by rw [published]; rfl,
        rfl, rfl⟩⟩
  | finish persisted => exact absurd rfl still
  | reopen opened => exact absurd rfl still

namespace Sound

/-- Nobody is in `append` when no store is under way. -/
theorem writing_of_free (sound : host.Sound) (free : host.run.phase = .idle) :
    host.strategy.writing = [] ∧ host.inbound.writing = [] := by
  have writer := sound.writer
  rw [free] at writer
  exact List.append_eq_nil_iff.mp writer.symm

/-- Whose entry is being stored. -/
theorem writer_cases (sound : host.Sound) {entry : Entry}
    (pending : host.run.phase.pending = some entry) :
    (host.strategy = .appending entry.event ∧ host.inbound.writing = []) ∨
      (host.strategy.writing = [] ∧ host.inbound = .appending entry.event) := by
  have writer := sound.writer
  rw [pending] at writer
  unfold Strategy.writing Inbound.writing at writer ⊢
  cases strategy : host.strategy <;> cases inbound : host.inbound <;>
    simp [strategy, inbound, eq_comm] at writer ⊢ <;> exact writer

theorem step (sound : host.Sound) (taken : Step arith host after) : after.Sound := by
  have durable := sound.durable
  have writer := sound.writer
  cases taken with
  | sendStart args idle connected apart =>
      rw [idle] at writer durable
      exact ⟨sound.consistent, writer, durable⟩
  | sendAppend now numbered free room =>
      obtain ⟨_, quiet⟩ := sound.writing_of_free free
      rw [numbered] at durable
      exact ⟨sound.consistent.step (.start _ free room), by rw [quiet]; rfl, durable⟩
  | sendThrow numbered free full =>
      rw [numbered] at writer durable
      exact ⟨sound.consistent, writer, durable⟩
  | store taken busy still =>
      obtain ⟨pending, stores⟩ := store_cases taken busy still
      refine ⟨sound.consistent.step taken, by rw [pending]; exact writer, fun event member => ?_⟩
      obtain ⟨entry, kept, same⟩ := durable event member
      refine ⟨entry, ?_, same⟩
      obtain ⟨equal, _⟩ | ⟨newest, _, _, _, grown⟩ := stores
      · rw [equal]
        exact kept
      · rw [grown]
        exact List.mem_append_left _ kept
  | @sendReturn event entry appending persisted =>
      have returned := sound.consistent.step (.finish persisted)
      obtain ⟨_, quiet⟩ | ⟨idle, _⟩ := @writer_cases host sound entry (by rw [persisted]; rfl)
      · refine ⟨returned, by rw [quiet]; rfl, fun other member => ?_⟩
        rw [appending] at durable writer
        obtain old | new := List.mem_append.mp member
        · exact durable other (List.mem_append_left _ old)
        · have reached := sound.consistent.reached
          unfold Run.Reached at reached
          rw [persisted] at reached
          obtain ⟨_, earlier, kept, _⟩ := reached
          refine ⟨entry, by rw [kept]; exact List.mem_append_right _ List.mem_cons_self, ?_⟩
          rw [persisted, quiet] at writer
          rw [List.mem_singleton.mp new]
          exact List.singleton_injective writer
      · rw [appending] at idle
        cases idle
  | sendApply logged =>
      rw [logged] at durable writer
      exact ⟨sound.consistent, writer, durable⟩
  | hand applied =>
      rw [applied] at durable writer
      exact ⟨sound.consistent, writer, by simpa [Strategy.unsent] using durable⟩
  | receive report idle translated apart =>
      rw [idle] at writer
      exact ⟨sound.consistent, writer, durable⟩
  | receiveAppend now translated free room =>
      obtain ⟨quiet, _⟩ := sound.writing_of_free free
      exact ⟨sound.consistent.step (.start _ free room), by rw [quiet]; rfl, durable⟩
  | @receiveReturn event entry appending persisted =>
      obtain ⟨_, idle⟩ | ⟨quiet, _⟩ := @writer_cases host sound entry (by rw [persisted]; rfl)
      · rw [appending] at idle
        cases idle
      · exact ⟨sound.consistent.step (.finish persisted), by rw [quiet]; rfl, durable⟩
  | receiveTrack logged =>
      rw [logged] at writer
      exact ⟨sound.consistent, writer, durable⟩
  | receiveApply tracked =>
      rw [tracked] at writer
      exact ⟨sound.consistent, writer, durable⟩
  | markToMarket sym mktPriceFp => exact ⟨sound.consistent, writer, durable⟩
  | onLogon => exact ⟨sound.consistent, writer, durable⟩
  | onLogout => exact ⟨sound.consistent, writer, durable⟩
  | restart limits opened =>
      refine ⟨sound.consistent.step (.reopen opened), rfl, fun event member => ?_⟩
      exact durable event (List.mem_append_left _ (by simpa [Strategy.unsent] using member))

theorem steps (sound : host.Sound) (run : ReflTransGen (Step arith) host after) : after.Sound := by
  induction run with
  | refl => exact sound
  | tail _ taken ih => exact ih.step taken

theorem of_run {limits : RiskLimits} (run : ReflTransGen (Step arith) (created limits) host) :
    host.Sound :=
  (sound_created limits).steps run

end Sound

/-! ## The process with atomic appends -/

theorem sending_of_not_writing {strategy : Strategy} (quiet : strategy.writing = [])
    (committed committed' : Bool) : strategy.sending committed = strategy.sending committed' := by
  cases strategy with
  | appending event => cases quiet
  | idle => rfl
  | numbered event => rfl
  | logged event => rfl
  | applied event => rfl

theorem receiving_of_not_writing {inbound : Inbound} (quiet : inbound.writing = [])
    (committed committed' : Bool) :
    inbound.receiving committed = inbound.receiving committed' := by
  cases inbound with
  | appending event => cases quiet
  | idle => rfl
  | translated event => rfl
  | logged event => rfl
  | tracked event => rfl

/-- The header store is the append; the stores before it are nothing. -/
theorem view_store (sound : host.Sound) {run : Run} (taken : Run.Step host.run run)
    (busy : host.run.phase ≠ .idle) (still : run.phase ≠ .idle) :
    view { host with run := run } = host.view ∨
      Process.Step arith host.view (view { host with run := run }) := by
  obtain ⟨_, ⟨kept, committed⟩ | ⟨entry, pending, before, committed, kept⟩⟩ :=
    store_cases taken busy still
  · left
    simp only [view, gateway, log, kept, committed]
  · right
    have appended := append_log sound.consistent (sound.consistent.step taken) kept
    obtain ⟨strategy, quiet⟩ | ⟨quiet, inbound⟩ := sound.writer_cases pending
    · have numbered : host.view.sending = .numbered entry.event := by
        rw [view, strategy, before]
        rfl
      have logged := @Process.Step.sendAppend arith _ _ _ _ entry.now numbered appended
      have same := receiving_of_not_writing quiet true host.run.phase.committed
      have whole : view { host with run := run } = { host.view with
          gateway := { host.view.gateway with log := log { host with run := run } }
          sending := .logged entry.event } := by
        simp only [view, same, strategy, committed]
        rfl
      rw [whole]
      exact logged
    · have translated : host.view.receiving = .translated entry.event := by
        rw [view, inbound, before]
        rfl
      have logged := @Process.Step.receiveAppend arith _ _ _ _ entry.now translated appended
      have same := sending_of_not_writing quiet true host.run.phase.committed
      have whole : view { host with run := run } = { host.view with
          gateway := { host.view.gateway with log := log { host with run := run } }
          receiving := .logged entry.event } := by
        simp only [view, same, inbound, committed]
        rfl
      rw [whole]
      exact logged

/-- The process that opens the file starts on the log of the kept entries. -/
theorem view_restart (sound : host.Sound) {log : MappedLog}
    (opened : openOrCreate (some host.run.log.file) = .ok log) :
    log.replay (PositionTracker.applyEvent arith) PositionTracker.initial =
        PositionTracker.initial.replayFrom arith host.log ∧
      log.replay (OrderManager.applyEvent arith) OrderManager.initial =
        OrderManager.initial.replayFrom arith host.log := by
  obtain ⟨reopened, presents⟩ := sound.consistent.reopened
  have same : log = ⟨host.run.log.file, host.run.log.file.nextSequence⟩ := by
    rw [reopened] at opened
    exact (Except.ok.inj opened).symm
  have events := events_log sound.consistent
  subst same
  constructor
  · rw [presents.replay, PositionTracker.replayFrom, EventLog.replay, EventLog.replay, events]
  · rw [presents.replay, OrderManager.replayFrom, EventLog.replay, EventLog.replay, events]

/-- Every step is one of the process with atomic appends, or nothing. -/
theorem view_step (sound : host.Sound) (taken : Step arith host after) :
    after.view = host.view ∨ Process.Step arith host.view after.view := by
  cases taken with
  | sendStart args idle connected apart =>
      exact .inr (.sendStart args (by rw [view, idle]; rfl) connected apart)
  | sendAppend now numbered free room =>
      left
      obtain ⟨_, quiet⟩ := sound.writing_of_free free
      simp only [view, numbered, free]
      rfl
  | @sendThrow event numbered free full =>
      right
      have threw : host.view.gateway.log.append 0 event =
          .error (.overflowError "EventLog full") := by
        apply EventLog.append_of_full
        rw [nextSeq_of_free sound.consistent free] at full
        exact full
      exact .sendThrow 0 (by rw [view, numbered]; rfl) threw
  | store taken busy still => exact view_store sound taken busy still
  | @sendReturn event entry appending persisted =>
      left
      obtain ⟨_, quiet⟩ | ⟨idle, _⟩ := @Sound.writer_cases host sound entry (by rw [persisted]; rfl)
      · have same := receiving_of_not_writing quiet Phase.idle.committed host.run.phase.committed
        simp only [view, same, appending, persisted]
        rfl
      · rw [appending] at idle
        cases idle
  | sendApply logged => exact .inr (.sendApply (by rw [view, logged]; rfl))
  | hand applied =>
      left
      simp only [view, applied]
      rfl
  | receive report idle translated apart =>
      exact .inr (.receive report (by rw [view, idle]; rfl) translated apart)
  | receiveAppend now translated free room =>
      left
      simp only [view, translated, free]
      rfl
  | @receiveReturn event entry appending persisted =>
      left
      obtain ⟨_, idle⟩ | ⟨quiet, _⟩ := @Sound.writer_cases host sound entry (by rw [persisted]; rfl)
      · rw [appending] at idle
        cases idle
      · have same := sending_of_not_writing quiet Phase.idle.committed host.run.phase.committed
        simp only [view, same, appending, persisted]
        rfl
  | receiveTrack logged => exact .inr (.receiveTrack (by rw [view, logged]; rfl))
  | receiveApply tracked => exact .inr (.receiveApply (by rw [view, tracked]; rfl))
  | markToMarket sym mktPriceFp => exact .inr (.markToMarket sym mktPriceFp)
  | onLogon => exact .inr .onLogon
  | onLogout => exact .inr .onLogout
  | @restart limits log opened =>
      right
      obtain ⟨tracker, orders⟩ := @view_restart arith host sound _ opened
      have restarted := @Process.Step.restart arith host.view limits
      simp only [FIXGateway.start] at restarted
      simp only [view, gateway, tracker, orders]
      exact restarted

/-- A run of threads and stores is a run of threads with atomic appends. -/
theorem refines {limits : RiskLimits} (run : ReflTransGen (Step arith) (created limits) host) :
    ReflTransGen (Process.Step arith)
      (Process.rebuilt arith (FIXGateway.start arith limits EventLog.empty)) host.view := by
  induction run with
  | refl => exact .refl
  | tail earlier taken ih =>
      obtain same | step := view_step (Sound.of_run earlier) taken
      · rw [same]
        exact ih
      · exact ih.tail step

/-- Wherever the process ends, the file opens, and the next process rebuilds the books that
this one would have had once it had applied what is logged: an append whose header store ran
counts as done, every other as not begun. What returned is kept, and so is every order that
was ever handed to the session. -/
theorem restart_settles {limits : RiskLimits}
    (run : ReflTransGen (Step arith) (created limits) host) :
    ∃ log, openOrCreate (some host.run.log.file) = .ok log ∧
      (log.replay (PositionTracker.applyEvent arith) PositionTracker.initial).slots.map
          Position.logged = (host.view.settledTracker arith).slots.map Position.logged ∧
      (log.replay (OrderManager.applyEvent arith) OrderManager.initial).slots.map Order.logged =
        (host.view.settledOrders arith).slots.map Order.logged ∧
      host.run.returned.Sublist host.run.kept ∧
      ∀ event ∈ host.handed, ∃ sequence now,
        log.read sequence = some (EventLog.stamp sequence now event) := by
  have sound := Sound.of_run run
  have settles := Process.Settles.run (refines run)
  obtain ⟨opened, presents⟩ := sound.consistent.reopened
  obtain ⟨tracker, orders⟩ := @view_restart arith host sound _ opened
  refine ⟨_, opened, ?_, ?_, sound.consistent.returnedKept, fun event member => ?_⟩
  · rw [tracker]
    exact settles.tracker
  · rw [orders]
    exact settles.orders
  · obtain ⟨entry, kept, rfl⟩ := sound.durable event (List.mem_append_left _ member)
    obtain ⟨sequence, below, found⟩ := List.getElem_of_mem kept
    refine ⟨sequence, entry.now, ?_⟩
    rw [presents.read]
    simp only [EventLog.read, Run.stampedEntries, List.getElem?_mapIdx,
      List.getElem?_eq_getElem below, found]
    rfl

/-- An order whose header store ran just before the process ended, and which no manager has
seen. -/
theorem exists_committed : ∃ host, ReflTransGen (Step .wrapping) (created {}) host ∧
    host.orders.slots = [] ∧ (host.view.settledOrders .wrapping).slots.map Order.logged =
      [(Order.opened (strncpy (Pointer.ofList (ascii "ORD0")) 8)
        (FIXGateway.connectedGateway.newOrderEvent FIXGateway.sampleArgs)).logged] := by
  have loggedOn := ReflTransGen.single (@Step.onLogon .wrapping (created {}))
  have numbered := loggedOn.tail (.sendStart FIXGateway.sampleArgs rfl rfl
    fun _ member => (nomatch member))
  have begun := numbered.tail (.sendAppend 0 rfl rfl (show 0 < maxEvents by decide))
  have stored := begun.tail (.store (.store rfl) Phase.noConfusion Phase.noConfusion)
  have published := stored.tail (.store (.publish rfl) Phase.noConfusion Phase.noConfusion)
  have persisted := published.tail (.store (.persist rfl) Phase.noConfusion Phase.noConfusion)
  exact ⟨_, persisted, rfl, by decide⟩

/-- The next process knows the order. -/
theorem restart_settles_committed : ∃ host log, ReflTransGen (Step .wrapping) (created {}) host ∧
    host.orders.slots = [] ∧ openOrCreate (some host.run.log.file) = .ok log ∧
    (log.replay (OrderManager.applyEvent .wrapping) OrderManager.initial).slots.length = 1 := by
  obtain ⟨host, run, none, settled⟩ := exists_committed
  obtain ⟨log, opened, _, orders, _⟩ := restart_settles run
  refine ⟨host, log, run, none, opened, ?_⟩
  rw [settled] at orders
  simpa using congrArg List.length orders

/-! ## Whole calls -/

/-- No call is in progress. -/
structure AtRest (host : Host) : Prop where
  strategy : host.strategy = .idle
  inbound : host.inbound = .idle
  free : host.run.phase = .idle

/-- `send_order` gets through its append when nothing stops it. -/
theorem exists_sendReturn (arith : Arithmetic) {event : OrderEvent} (now : Nat)
    (numbered : host.strategy = .numbered event) (free : host.run.phase = .idle)
    (room : host.run.log.nextSeq < maxEvents) :
    ∃ run, ReflTransGen (Step arith) host { host with run := run, strategy := .logged event } ∧
      run.phase = .idle ∧ run.kept = host.run.kept ++ [⟨event, now⟩] := by
  obtain ⟨⟨log, phase, written, kept, returned⟩, tracker, orders, limits, connected, counter,
    strategy, inbound, handed⟩ := host
  cases numbered
  cases free
  have begun : ReflTransGen (Step arith) ⟨⟨log, .idle, written, kept, returned⟩, tracker, orders,
      limits, connected, counter, .numbered event, inbound, handed⟩ _ :=
    .single (.sendAppend now rfl rfl room)
  have stored := begun.tail (.store (.store rfl) Phase.noConfusion Phase.noConfusion)
  have published := stored.tail (.store (.publish rfl) Phase.noConfusion Phase.noConfusion)
  have persisted := published.tail (.store (.persist rfl) Phase.noConfusion Phase.noConfusion)
  exact ⟨_, persisted.tail (.sendReturn rfl rfl), rfl, rfl⟩

/-- So does `onMessage`. -/
theorem exists_receiveReturn (arith : Arithmetic) {event : OrderEvent} (now : Nat)
    (translated : host.inbound = .translated event) (free : host.run.phase = .idle)
    (room : host.run.log.nextSeq < maxEvents) :
    ∃ run, ReflTransGen (Step arith) host { host with run := run, inbound := .logged event } ∧
      run.phase = .idle ∧ run.kept = host.run.kept ++ [⟨event, now⟩] := by
  obtain ⟨⟨log, phase, written, kept, returned⟩, tracker, orders, limits, connected, counter,
    strategy, inbound, handed⟩ := host
  cases translated
  cases free
  have begun : ReflTransGen (Step arith) ⟨⟨log, .idle, written, kept, returned⟩, tracker, orders,
      limits, connected, counter, strategy, .translated event, handed⟩ _ :=
    .single (.receiveAppend now rfl rfl room)
  have stored := begun.tail (.store (.store rfl) Phase.noConfusion Phase.noConfusion)
  have published := stored.tail (.store (.publish rfl) Phase.noConfusion Phase.noConfusion)
  have persisted := published.tail (.store (.persist rfl) Phase.noConfusion Phase.noConfusion)
  exact ⟨_, persisted.tail (.receiveReturn rfl rfl), rfl, rfl⟩

/-- Each call of a session is a run of the threads and their stores. -/
theorem run_of_sessionStep {arith : Arithmetic} (sound : host.Sound) (rest : host.AtRest)
    {result : FIXGateway} (step : FIXGateway.SessionStep arith host.gateway result) :
    ∃ last, ReflTransGen (Step arith) host last ∧ last.AtRest ∧ last.gateway = result := by
  obtain ⟨strategyIdle, inboundIdle, free⟩ := rest
  have counter := nextSeq_of_free sound.consistent free
  cases step with
  | sendOrder args now sessionFound =>
      have apart : ∀ reported ∈ host.view.receiving.inFlight,
          reported.orderId.string ≠ (host.gateway.newOrderEvent args).orderId.string := by
        rw [view, inboundIdle]
        exact fun _ member => (nomatch member)
      let numbered : Host := { host with
        orderCounter := host.gateway.nextOrderId.2.orderCounter
        strategy := .numbered (host.gateway.newOrderEvent args) }
      obtain ⟨_, blocked⟩ | ⟨accepted, full, stopped⟩ | ⟨log, accepted, room, events, sent⟩ :=
        FIXGateway.sendOrder_cases arith host.gateway args now sessionFound
      · rw [blocked]
        exact ⟨host, .refl, ⟨strategyIdle, inboundIdle, free⟩, rfl⟩
      · rw [stopped]
        have started : Step arith host numbered := .sendStart args strategyIdle accepted.1 apart
        have threw : Step arith numbered _ := .sendThrow rfl free (counter ▸ full)
        exact ⟨_, .tail (.single started) threw, ⟨rfl, inboundIdle, free⟩, rfl⟩
      · rw [sent]
        have started : Step arith host numbered := .sendStart args strategyIdle accepted.1 apart
        obtain ⟨run, stores, idle, kept⟩ :=
          @exists_sendReturn numbered arith _ now rfl free (counter ▸ room)
        have returned := ReflTransGen.head started stores
        have last := (returned.tail (.sendApply rfl)).tail (.hand rfl)
        refine ⟨_, last, ⟨rfl, inboundIdle, idle⟩, ?_⟩
        have appended := append_log sound.consistent (sound.steps last).consistent kept
        have same : Host.log { host with run := run } = log :=
          EventLog.ext ((EventLog.append_eq_ok_iff.mp appended).2.1.trans events.symm)
        rw [← same]
        rfl
  | fromApp message now returned =>
      obtain rfl | ⟨report, event, _, translated, booked⟩ := FIXGateway.fromApp_cases returned
      · exact ⟨host, .refl, ⟨strategyIdle, inboundIdle, free⟩, rfl⟩
      · obtain ⟨log, room, events, rfl⟩ := FIXGateway.book_eq_ok_iff.mp booked
        have apart : ∀ placed ∈ host.view.sending.inFlight,
            event.orderId.string ≠ placed.orderId.string := by
          rw [view, strategyIdle]
          exact fun _ member => (nomatch member)
        have received := Step.receive report inboundIdle translated apart
        obtain ⟨run, stores, idle, kept⟩ := @exists_receiveReturn
          { host with inbound := .translated event } arith event now rfl free (counter ▸ room)
        have returned := ReflTransGen.head received stores
        have last := (returned.tail (.receiveTrack rfl)).tail (.receiveApply rfl)
        refine ⟨_, last, ⟨strategyIdle, rfl, idle⟩, ?_⟩
        have appended := append_log sound.consistent (sound.steps last).consistent kept
        have same : Host.log { host with run := run } = log :=
          EventLog.ext ((EventLog.append_eq_ok_iff.mp appended).2.1.trans events.symm)
        rw [← same]
        rfl
  | onLogon => exact ⟨_, .single .onLogon, ⟨strategyIdle, inboundIdle, free⟩, rfl⟩
  | onLogout => exact ⟨_, .single .onLogout, ⟨strategyIdle, inboundIdle, free⟩, rfl⟩
  | markToMarket sym mktPriceFp =>
      exact ⟨_, .single (.markToMarket sym mktPriceFp), ⟨strategyIdle, inboundIdle, free⟩, rfl⟩

end Host

end Gateway

end Hft
