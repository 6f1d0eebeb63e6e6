import Hft.Gateway.CancelAll
import Hft.Gateway.Interleaving
import Hft.Logical.TableScan
import Hft.SlotOrder

/-!
# The program

`main` replays the log, hands the components to the gateway, starts the initiator and sleeps
until a signal has set `g_shutdown`. The handler runs on whatever thread the signal interrupts,
also between two of the three bookkeeping calls of `onMessage`, and asks for the cancellation of
every order that it finds open, slot by slot, while the other threads go on and perhaps a second
handler. `main` itself places no order, so those it cancels are the ones that earlier runs left
behind.
-/

namespace Hft

open Logical

namespace Gateway

/-- Where `main` is, once the signal handlers are registered. -/
inductive Phase where
  | configuring
  | running
  | stopping
  | exited (code : Nat)
  | terminated
deriving DecidableEq

/-- `execute` with its default prefix: `cancel_all`, and nothing else. -/
def FIXGateway.emergencyCancelAll (gateway : FIXGateway) (sessionFound : Bool) :
    List (Attempt OrderCancelRequest) :=
  Killswitch.cancelAll gateway.orders (ascii "KS") fun _ => sessionFound

/-- The I/O thread. -/
inductive InboundStep (arith : Arithmetic) (process : Process) : Process → Prop where
  | receive {event : OrderEvent} (report : ExecutionReport) (idle : process.receiving = .idle)
      (translated : MessageTranslator.fromExecutionReport arith report = .ok (some event)) :
      InboundStep arith process { process with receiving := .translated event }
  | append {event : OrderEvent} {log : EventLog} {sequence : Nat} (now : Nat)
      (translated : process.receiving = .translated event)
      (appended : process.gateway.log.append now event = .ok (log, sequence)) :
      InboundStep arith process { process with
        gateway := { process.gateway with log := log }
        receiving := .logged event }
  | track {event : OrderEvent} (logged : process.receiving = .logged event) :
      InboundStep arith process { process with
        gateway := { process.gateway with
          tracker := process.gateway.tracker.applyEvent arith event }
        receiving := .tracked event }
  | apply {event : OrderEvent} (tracked : process.receiving = .tracked event) :
      InboundStep arith process { process with
        gateway := { process.gateway with
          orders := process.gateway.orders.applyEvent arith event }
        receiving := .idle }
  | onLogon : InboundStep arith process { process with gateway := process.gateway.onLogon }
  | onLogout : InboundStep arith process { process with gateway := process.gateway.onLogout }

/-- A signal handler under way: its scan of the order table, the requests it has attempted, the
log when the signal came, and the ids that reports have been about since. -/
structure Handler where
  scan : TableScan Order Order.key maxOrders
  attempts : List (Attempt OrderCancelRequest)
  log : EventLog
  touched : List (List UInt8)

/-- The ids of the report in the works. -/
def Process.inWorks (process : Process) : List (List UInt8) :=
  process.receiving.inFlight.map fun event => event.orderId.string

namespace Handler

/-- The handler when it begins. -/
def entered (process : Process) : Handler :=
  ⟨TableScan.begin process.gateway.orders, [], process.gateway.log, process.inWorks⟩

/-- One slot of `for_each_open`. -/
def look (sessionFound : Bool) (order : Order) (handler : Handler) : Handler :=
  { handler with
    scan := { handler.scan with
      index := handler.scan.index + 1
      looked := handler.scan.looked ++ [order] }
    attempts := if order.isOpen then
        Killswitch.cancelVisit (ascii "KS") (fun _ => sessionFound) handler.attempts order
      else handler.attempts }

/-- The I/O thread goes on meanwhile. -/
def meanwhile (after : Process) (handler : Handler) : Handler :=
  { handler with
    scan := { handler.scan with
      table := after.gateway.orders
      tables := handler.scan.tables ++ [after.gateway.orders] }
    touched := handler.touched ++ after.inWorks }

/-- The ids of the orders that were asked about. -/
def asked (handler : Handler) : List (List UInt8) :=
  handler.attempts.map fun attempt => attempt.message.origClOrdId

/-- Looks that nobody comes between are `emergency_cancel_all`. -/
theorem attempts_of_looks (process : Process) (sessionFound : Bool) :
    (process.gateway.orders.slots.foldl (fun handler order => handler.look sessionFound order)
      (entered process)).attempts = process.gateway.emergencyCancelAll sessionFound := by
  have looks : ∀ (slots : List Order) (handler : Handler),
      (slots.foldl (fun handler order => handler.look sessionFound order) handler).attempts =
        (slots.filter Order.isOpen).foldl
          (Killswitch.cancelVisit (ascii "KS") fun _ => sessionFound) handler.attempts := by
    intro slots
    induction slots with
    | nil => exact fun _ => rfl
    | cons order rest ih =>
        intro handler
        rw [List.foldl_cons, ih]
        cases isOpen : order.isOpen with
        | true => rw [List.filter_cons_of_pos isOpen, List.foldl_cons, look, if_pos isOpen]
        | false => rw [List.filter_cons_of_neg (by simp [isOpen]), look, if_neg (by simp [isOpen])]
  exact looks _ _

end Handler

/-- The process: `main`, the flag, QuickFIX's session table, the gateway with the I/O thread, and
the signal handlers that run and that have returned. -/
structure Program where
  phase : Phase
  shutdown : Bool
  sessionFound : Bool
  process : Process
  handlers : List Handler
  returned : List Handler

namespace Program

/-- `main` after the replay and the registration of the handlers. -/
def launched (arith : Arithmetic) (limits : RiskLimits) (log : EventLog) : Program where
  phase := .configuring
  shutdown := false
  sessionFound := false
  process := Process.between (FIXGateway.start arith limits log)
  handlers := []
  returned := []

/-- The process is there to run on. -/
def Alive (program : Program) : Prop :=
  (∀ code, program.phase ≠ .exited code) ∧ program.phase ≠ .terminated

/-- One step of `main`, of the I/O thread or of a handler, or a signal. A handler looks at one slot
after the other, and the others may go on between two looks. -/
inductive Step (arith : Arithmetic) (program : Program) : Program → Prop where
  | onCreate (configuring : program.phase = .configuring) :
      Step arith program { program with sessionFound := true }
  | configError (configuring : program.phase = .configuring) :
      Step arith program { program with phase := .exited 1, sessionFound := false }
  | start (configuring : program.phase = .configuring) :
      Step arith program { program with phase := .running }
  | inbound {after : Process} (connected : program.phase = .running ∨ program.phase = .stopping)
      (taken : InboundStep arith program.process after) :
      Step arith program { program with
        process := after
        handlers := program.handlers.map (Handler.meanwhile after) }
  | terminate {message : FIXGateway.InboundMessage} (now : Nat)
      (connected : program.phase = .running ∨ program.phase = .stopping)
      (idle : program.process.receiving = .idle)
      (threw : program.process.gateway.fromApp arith message now = .terminated) :
      Step arith program { program with phase := .terminated }
  | wake (running : program.phase = .running) (set : program.shutdown = true) :
      Step arith program { program with phase := .stopping }
  | stop (stopping : program.phase = .stopping) (joined : program.process.receiving = .idle) :
      Step arith program { program with phase := .exited 0, sessionFound := false }
  | signal (alive : program.Alive) :
      Step arith program { program with
        shutdown := true
        handlers := program.handlers ++ [Handler.entered program.process] }
  | look {before rest : List Handler} {handler : Handler} {order : Order} (alive : program.Alive)
      (running : program.handlers = before ++ handler :: rest)
      (found : program.process.gateway.orders.slots[handler.scan.index]? = some order) :
      Step arith program { program with
        handlers := before ++ handler.look program.sessionFound order :: rest }
  | finish {before rest : List Handler} {handler : Handler} (alive : program.Alive)
      (running : program.handlers = before ++ handler :: rest)
      (finished : program.process.gateway.orders.slots.length ≤ handler.scan.index) :
      Step arith program { program with
        handlers := before ++ rest
        returned := program.returned ++ [handler] }

end Program

/-- The I/O thread is one of the two threads of a process, and the other one is idle. -/
theorem InboundStep.step {arith : Arithmetic} {process after : Process}
    (taken : InboundStep arith process after) (idle : process.sending = .idle) :
    Process.Step arith process after ∧ after.sending = .idle := by
  cases taken with
  | receive report receiving translated =>
      refine ⟨.receive report receiving translated fun placed member => ?_, idle⟩
      rw [idle] at member
      cases member
  | append now translated appended => exact ⟨.receiveAppend now translated appended, idle⟩
  | track logged => exact ⟨.receiveTrack logged, idle⟩
  | apply tracked => exact ⟨.receiveApply tracked, idle⟩
  | onLogon => exact ⟨.onLogon, idle⟩
  | onLogout => exact ⟨.onLogout, idle⟩

/-- The log is only ever extended, and by no new order. -/
def Extends (log after : EventLog) : Prop :=
  ∃ reported, after.events = log.events ++ reported ∧ ∀ event ∈ reported, event.type ≠ .newOrder

theorem Extends.openedIds_eq {log after : EventLog} (extended : Extends log after) :
    OrderManager.openedIds after.events = OrderManager.openedIds log.events := by
  obtain ⟨reported, events, notNew⟩ := extended
  have none : OrderManager.openedIds reported = [] := by
    unfold OrderManager.openedIds
    rw [List.filter_eq_nil_iff.mpr fun event member => by simpa using notNew event member]
    rfl
  rw [events, OrderManager.openedIds_append, none, List.append_nil]

theorem InboundStep.extends {arith : Arithmetic} {log : EventLog} {process after : Process}
    (taken : InboundStep arith process after)
    (quiet : ∀ event ∈ process.receiving.inFlight, event.type ≠ .newOrder)
    (extended : Extends log process.gateway.log) : Extends log after.gateway.log := by
  cases taken with
  | @append event longer sequence now translated appended =>
      obtain ⟨reported, events, notNew⟩ := extended
      have written := (EventLog.append_eq_ok_iff.mp appended).2.1
      refine ⟨reported ++ [EventLog.stamp process.gateway.log.size now event], ?_, ?_⟩
      · rw [written, events, List.append_assoc]
      · intro other member
        obtain old | last := List.mem_append.mp member
        · exact notNew other old
        · cases List.mem_singleton.mp last
          exact quiet event (by rw [translated]; exact List.mem_singleton_self _)
  | receive => exact extended
  | track => exact extended
  | apply => exact extended
  | onLogon => exact extended
  | onLogout => exact extended

/-- Reports are never about new orders. -/
theorem InboundStep.notNew {arith : Arithmetic} {process after : Process}
    (taken : InboundStep arith process after)
    (quiet : ∀ event ∈ process.receiving.inFlight, event.type ≠ .newOrder) :
    ∀ event ∈ after.receiving.inFlight, event.type ≠ .newOrder := by
  cases taken with
  | receive report idle translated =>
      intro event member
      rw [List.mem_singleton.mp member]
      exact MessageTranslator.type_ne_newOrder translated
  | append now translated appended =>
      rw [translated] at quiet
      exact quiet
  | track logged =>
      rw [logged] at quiet
      exact quiet
  | apply => exact fun _ member => absurd member List.not_mem_nil
  | onLogon => exact quiet
  | onLogout => exact quiet

/-! ## The live table and the log -/

namespace Process

variable {arith : Arithmetic} {process after : Process}

/-- The live table is that of the log but for the event that the I/O thread has logged and not yet
applied. -/
def Applied (arith : Arithmetic) (process : Process) : Prop :=
  ∃ applied sequence now, process.gateway.log.events =
      applied ++ process.receiving.unapplied.map (EventLog.stamp sequence now) ∧
    (OrderManager.project arith applied).Agree Order.logged process.gateway.orders

theorem applied_launched (arith : Arithmetic) (limits : RiskLimits) (log : EventLog) :
    (between (FIXGateway.start arith limits log)).Applied arith :=
  ⟨log.events, 0, 0, (List.append_nil _).symm, rfl⟩

theorem Applied.step (applied : process.Applied arith) (taken : InboundStep arith process after) :
    after.Applied arith := by
  obtain ⟨earlier, sequence, now, events, agree⟩ := applied
  cases taken with
  | receive report idle translated =>
      rw [idle] at events
      exact ⟨earlier, sequence, now, events, agree⟩
  | @append event log position clock translated appended =>
      rw [translated] at events
      refine ⟨earlier, process.gateway.log.size, clock, ?_, agree⟩
      rw [(EventLog.append_eq_ok_iff.mp appended).2.1, events]
      simp [Receiving.unapplied]
  | track logged =>
      rw [logged] at events
      exact ⟨earlier, sequence, now, events, agree⟩
  | @apply event tracked =>
      rw [tracked] at events
      refine ⟨process.gateway.log.events, sequence, now, (List.append_nil _).symm, ?_⟩
      have whole : OrderManager.project arith process.gateway.log.events =
          (OrderManager.project arith earlier).applyEvent arith
            (EventLog.stamp sequence now event) := by
        rw [events, OrderManager.project, List.foldl_append]
        rfl
      rw [whole]
      exact OrderManager.agree_applyEvent agree arith sequence now event
  | onLogon => exact ⟨earlier, sequence, now, events, agree⟩
  | onLogout => exact ⟨earlier, sequence, now, events, agree⟩

/-- The live table is that of a log no more than one event shorter. -/
theorem Applied.exists_earlier (applied : process.Applied arith) :
    ∃ earlier, earlier <+: process.gateway.log.events ∧
      process.gateway.log.size ≤ earlier.length + 1 ∧
      (OrderManager.project arith earlier).Agree Order.logged process.gateway.orders := by
  obtain ⟨earlier, sequence, now, events, agree⟩ := applied
  refine ⟨earlier, ⟨_, events.symm⟩, ?_, agree⟩
  rw [EventLog.size, events, List.length_append, List.length_map]
  cases process.receiving <;> simp [Receiving.unapplied]

end Process

/-- Whether an id is open is logged. -/
theorem OrderManager.isOpen_of_agree {left right : OrderManager}
    (agree : left.Agree Order.logged right) (orderId : List UInt8) :
    (left.find? orderId).map Order.isOpen = (right.find? orderId).map Order.isOpen := by
  have opens : ∀ order : Order, order.logged.isOpen = order.isOpen := fun _ => rfl
  have seen := congrArg (Option.map Order.isOpen)
    (agree.map_find? OrderManager.key_eq_of_logged_eq orderId)
  simpa only [Option.map_map, Function.comp_def, opens] using seen

namespace Process

variable {arith : Arithmetic} {process after : Process}

/-- No report in the works, no difference between table and log. -/
theorem Applied.isOpen_eq (applied : process.Applied arith) {orderId : List UInt8}
    (quiet : orderId ∉ process.inWorks) :
    (process.gateway.orders.find? orderId).map Order.isOpen =
      ((OrderManager.initial.replayFrom arith process.gateway.log).find? orderId).map
        Order.isOpen := by
  obtain ⟨earlier, sequence, now, events, agree⟩ := applied
  have unaddressed : ∀ event ∈ process.receiving.unapplied.map (EventLog.stamp sequence now),
      event.orderId.string ≠ orderId := by
    rintro _ member rfl
    obtain ⟨event, unapplied, rfl⟩ := List.mem_map.mp member
    refine quiet (List.mem_map.mpr ⟨event, ?_, rfl⟩)
    cases receiving : process.receiving <;> rw [receiving] at unapplied <;> first
      | exact unapplied
      | cases unapplied
  have replayed : OrderManager.initial.replayFrom arith process.gateway.log =
      (process.receiving.unapplied.map (EventLog.stamp sequence now)).foldl
        (OrderManager.applyEvent arith) (OrderManager.project arith earlier) := by
    rw [OrderManager.replayFrom, EventLog.replay, events, List.foldl_append]
    rfl
  rw [replayed, (OrderManager.projects arith).find?_foldl_of_unaddressed unaddressed,
    OrderManager.isOpen_of_agree agree orderId]

/-- A step of the I/O thread changes nothing about an id that no report in the works names. -/
theorem isOpen_inboundStep (taken : InboundStep arith process after) {orderId : List UInt8}
    (quiet : orderId ∉ process.inWorks) :
    after.gateway.orders.find? orderId = process.gateway.orders.find? orderId := by
  cases taken with
  | @apply event tracked =>
      refine OrderManager.find?_applyEvent_of_ne arith _ fun same => quiet ?_
      rw [inWorks, tracked, same]
      exact List.mem_singleton_self _
  | receive => rfl
  | append => rfl
  | track => rfl
  | onLogon => rfl
  | onLogout => rfl

theorem log_prefix_inboundStep (taken : InboundStep arith process after) :
    process.gateway.log.events <+: after.gateway.log.events := by
  cases taken with
  | append now translated appended =>
      rw [(EventLog.append_eq_ok_iff.mp appended).2.1]
      exact List.prefix_append _ _
  | receive => exact List.prefix_rfl
  | track => exact List.prefix_rfl
  | apply => exact List.prefix_rfl
  | onLogon => exact List.prefix_rfl
  | onLogout => exact List.prefix_rfl

theorem keys_prefix_inboundStep (taken : InboundStep arith process after) :
    process.gateway.orders.keys <+: after.gateway.orders.keys := by
  cases taken with
  | @apply event tracked =>
      rw [OrderManager.keys_applyEvent]
      split
      · exact List.prefix_append _ _
      · exact List.prefix_rfl
  | receive => exact List.prefix_rfl
  | append => exact List.prefix_rfl
  | track => exact List.prefix_rfl
  | onLogon => exact List.prefix_rfl
  | onLogout => exact List.prefix_rfl

end Process

/-! ## What a handler asks for -/

namespace Handler

variable {arith : Arithmetic} {process after : Process} {handler : Handler}

/-- What is known of a handler: the requests are about the open orders it looked at, and the
tables it met were those of the log at some moment, and differ from that of the log when it began
only where a report was in the works. -/
structure Sound (arith : Arithmetic) (current : EventLog) (handler : Handler) : Prop where
  scan : handler.scan.Sound
  asked : handler.asked = (handler.scan.looked.filter Order.isOpen).map Order.key
  replayed : ∀ table ∈ handler.scan.tables, ∃ earlier, earlier <+: current.events ∧
    handler.log.size ≤ earlier.length + 1 ∧
    (OrderManager.project arith earlier).Agree Order.logged table
  steady : ∀ table ∈ handler.scan.tables, ∀ orderId ∉ handler.touched,
    (table.find? orderId).map Order.isOpen =
      ((OrderManager.initial.replayFrom arith handler.log).find? orderId).map Order.isOpen

/-- A handler that has not returned looks at the live table. -/
structure Running (arith : Arithmetic) (process : Process) (handler : Handler) : Prop where
  sound : handler.Sound arith process.gateway.log
  current : handler.scan.table = process.gateway.orders
  reported : process.inWorks ⊆ handler.touched
  begun : handler.log.size ≤ process.gateway.log.size

theorem running_entered (applied : process.Applied arith) : (entered process).Running arith process
    where
  sound := by
    refine ⟨TableScan.sound_begin _, rfl, fun table member => ?_, fun table member => ?_⟩
    · rw [List.mem_singleton.mp member]
      exact applied.exists_earlier
    · rw [List.mem_singleton.mp member]
      exact fun orderId quiet => applied.isOpen_eq quiet
  current := rfl
  reported := List.Subset.refl _
  begun := le_rfl

theorem Running.look (running : handler.Running arith process) (sessionFound : Bool)
    {order : Order} (found : process.gateway.orders.slots[handler.scan.index]? = some order) :
    (handler.look sessionFound order).Running arith process where
  sound := by
    refine ⟨running.sound.scan.look (by rw [running.current]; exact found), ?_,
      running.sound.replayed, running.sound.steady⟩
    have asked := running.sound.asked
    unfold Handler.asked at asked ⊢
    rw [Handler.look, List.filter_append, List.map_append, ← asked]
    cases isOpen : order.isOpen with
    | true =>
        rw [List.filter_cons_of_pos isOpen]
        simp only [if_true, Killswitch.cancelVisit, List.map_append]
        rfl
    | false =>
        rw [List.filter_cons_of_neg (by simp [isOpen])]
        simp
  current := running.current
  reported := running.reported
  begun := running.begun

theorem Sound.mono {current later : EventLog} (sound : handler.Sound arith current)
    (grown : current.events <+: later.events) : handler.Sound arith later where
  scan := sound.scan
  asked := sound.asked
  replayed table member := by
    obtain ⟨earlier, within, long, agree⟩ := sound.replayed table member
    exact ⟨earlier, within.trans grown, long, agree⟩
  steady := sound.steady

/-- The I/O thread takes a step while the handler runs. -/
theorem Running.meanwhile (running : handler.Running arith process)
    (applied : process.Applied arith) (taken : InboundStep arith process after) :
    (handler.meanwhile after).Running arith after where
  sound := by
    have grown := Process.log_prefix_inboundStep taken
    have later := running.sound.mono grown
    have sameKeys := Process.keys_prefix_inboundStep taken
    rw [← running.current] at sameKeys
    refine ⟨later.scan.change sameKeys, later.asked, fun table member => ?_,
      fun table member orderId quiet => ?_⟩
    · obtain old | new := List.mem_append.mp member
      · exact later.replayed table old
      · rw [List.mem_singleton.mp new]
        obtain ⟨earlier, within, long, agree⟩ := (applied.step taken).exists_earlier
        exact ⟨earlier, within, (running.begun.trans grown.length_le).trans long, agree⟩
    · have untouched : orderId ∉ handler.touched := fun named =>
        quiet (List.mem_append_left _ named)
      obtain old | new := List.mem_append.mp member
      · exact later.steady table old orderId untouched
      · rw [List.mem_singleton.mp new, Process.isOpen_inboundStep taken fun named =>
          untouched (running.reported named), ← running.current]
        exact later.steady _ later.scan.present orderId untouched
  current := rfl
  reported := List.subset_append_right _ _
  begun := running.begun.trans (Process.log_prefix_inboundStep taken).length_le

namespace Sound

variable {current : EventLog} (sound : handler.Sound arith current)

include sound

theorem nodup_asked : handler.asked.Nodup := by
  rw [sound.asked]
  exact sound.scan.nodup_looked.sublist (List.filter_sublist.map _)

/-- Whoever is asked about was open, in a log between those of the beginning and the end. -/
theorem wasOpen {orderId : List UInt8} (member : orderId ∈ handler.asked) :
    ∃ earlier, earlier <+: current.events ∧ handler.log.size ≤ earlier.length + 1 ∧
      ((OrderManager.project arith earlier).find? orderId).map Order.isOpen = some true := by
  rw [sound.asked] at member
  obtain ⟨order, inOpen, rfl⟩ := List.mem_map.mp member
  obtain ⟨inLooked, isOpen⟩ := List.mem_filter.mp inOpen
  obtain ⟨table, inTables, inSlots⟩ := sound.scan.witnessed order inLooked
  obtain ⟨earlier, within, long, agree⟩ := sound.replayed table inTables
  refine ⟨earlier, within, long, ?_⟩
  rw [OrderManager.isOpen_of_agree agree, SlotTable.find?_eq_some_iff.mpr ⟨inSlots, rfl⟩,
    Option.map_some, isOpen]

/-- Where no report was in the works, the orders asked about are those that were open in the log
when the signal came. -/
theorem mem_asked_iff (finished : handler.scan.Over) {orderId : List UInt8}
    (untouched : orderId ∉ handler.touched) :
    orderId ∈ handler.asked ↔
      ∃ order, (OrderManager.initial.replayFrom arith handler.log).find? orderId = some order ∧
        order.isOpen = true := by
  rw [← Option.map_eq_some_iff, sound.asked, List.mem_map]
  constructor
  · rintro ⟨order, inOpen, rfl⟩
    obtain ⟨inLooked, isOpen⟩ := List.mem_filter.mp inOpen
    obtain ⟨table, inTables, inSlots⟩ := sound.scan.witnessed order inLooked
    rw [← sound.steady table inTables _ untouched,
      SlotTable.find?_eq_some_iff.mpr ⟨inSlots, rfl⟩, Option.map_some, isOpen]
  · intro isOpen
    have last := sound.steady _ sound.scan.present orderId untouched
    rw [isOpen, Option.map_eq_some_iff] at last
    obtain ⟨order, found, _⟩ := last
    obtain ⟨inTable, rfl⟩ := SlotTable.find?_eq_some_iff.mp found
    obtain ⟨twin, inLooked, sameKey⟩ := sound.scan.exists_looked finished inTable
    obtain ⟨table, inTables, inSlots⟩ := sound.scan.witnessed twin inLooked
    have atLook := sound.steady table inTables _ untouched
    rw [isOpen, SlotTable.find?_eq_some_iff.mpr ⟨inSlots, sameKey⟩, Option.map_some] at atLook
    exact ⟨twin, List.mem_filter.mpr ⟨inLooked, Option.some.inj atLook⟩, sameKey⟩

end Sound

end Handler

namespace Program

variable {arith : Arithmetic} {log : EventLog} {program after : Program}

/-- The invariant of the program, started on `log`. -/
structure Sound (arith : Arithmetic) (log : EventLog) (program : Program) : Prop where
  applied : program.process.Applied arith
  notNew : ∀ event ∈ program.process.receiving.inFlight, event.type ≠ .newOrder
  extended : Extends log program.process.gateway.log
  running : ∀ handler ∈ program.handlers, handler.Running arith program.process
  returned : ∀ handler ∈ program.returned,
    handler.Sound arith program.process.gateway.log ∧ handler.scan.Over
  woken : program.phase = .stopping ∨ program.phase = .exited 0 → program.shutdown = true

theorem sound_launched (arith : Arithmetic) (limits : RiskLimits) (log : EventLog) :
    (launched arith limits log).Sound arith log where
  applied := Process.applied_launched arith limits log
  notNew _ member := absurd member List.not_mem_nil
  extended := ⟨[], (List.append_nil _).symm, fun _ member => absurd member List.not_mem_nil⟩
  running _ member := absurd member List.not_mem_nil
  returned _ member := absurd member List.not_mem_nil
  woken atEnd := by obtain atEnd | atEnd := atEnd <;> cases atEnd

/-- Steps of `main` and the ends of the process leave the log and the handlers alone. -/
theorem Sound.of_phase (sound : program.Sound arith log) (phase : Phase) (sessionFound : Bool)
    (woken : phase = .stopping ∨ phase = .exited 0 → program.shutdown = true) :
    Sound arith log { program with phase := phase, sessionFound := sessionFound } :=
  ⟨sound.applied, sound.notNew, sound.extended, sound.running, sound.returned, woken⟩

theorem Sound.step (sound : program.Sound arith log) (taken : Step arith program after) :
    after.Sound arith log := by
  cases taken with
  | onCreate => exact sound.of_phase _ true sound.woken
  | configError => exact sound.of_phase (.exited 1) false fun atEnd => by simp at atEnd
  | start => exact sound.of_phase .running _ fun atEnd => by simp at atEnd
  | inbound connected taken =>
      refine ⟨sound.applied.step taken, taken.notNew sound.notNew,
        taken.extends sound.notNew sound.extended, fun handler member => ?_,
        fun handler member => ?_, sound.woken⟩
      · obtain ⟨before, inHandlers, rfl⟩ := List.mem_map.mp member
        exact (sound.running before inHandlers).meanwhile sound.applied taken
      · obtain ⟨known, finished⟩ := sound.returned handler member
        exact ⟨known.mono (Process.log_prefix_inboundStep taken), finished⟩
  | terminate => exact sound.of_phase .terminated _ fun atEnd => by simp at atEnd
  | wake running set => exact sound.of_phase .stopping _ fun _ => set
  | stop stopping joined =>
      exact sound.of_phase (.exited 0) false fun _ => sound.woken (.inl stopping)
  | signal alive =>
      refine ⟨sound.applied, sound.notNew, sound.extended, fun handler member => ?_,
        sound.returned, fun _ => rfl⟩
      obtain old | new := List.mem_append.mp member
      · exact sound.running handler old
      · rw [List.mem_singleton.mp new]
        exact Handler.running_entered sound.applied
  | @look before rest handler order alive running found =>
      have each := sound.running
      rw [running, List.forall_mem_append, List.forall_mem_cons] at each
      obtain ⟨others, own, more⟩ := each
      refine ⟨sound.applied, sound.notNew, sound.extended, ?_, sound.returned, sound.woken⟩
      rw [List.forall_mem_append, List.forall_mem_cons]
      exact ⟨others, own.look program.sessionFound found, more⟩
  | @finish before rest handler alive running finished =>
      have each := sound.running
      rw [running, List.forall_mem_append, List.forall_mem_cons] at each
      obtain ⟨others, own, more⟩ := each
      refine ⟨sound.applied, sound.notNew, sound.extended, ?_, ?_, sound.woken⟩
      · rw [List.forall_mem_append]
        exact ⟨others, more⟩
      · rw [List.forall_mem_append, List.forall_mem_singleton]
        refine ⟨sound.returned, own.sound, ?_⟩
        rw [TableScan.Over, own.current]
        exact finished

theorem sound_run {limits : RiskLimits}
    (run : Relation.ReflTransGen (Step arith) (launched arith limits log) program) :
    program.Sound arith log := by
  induction run with
  | refl => exact sound_launched arith limits log
  | tail _ taken ih => exact ih.step taken

theorem Sound.handler (sound : program.Sound arith log) {handler : Handler}
    (member : handler ∈ program.handlers ++ program.returned) :
    handler.Sound arith program.process.gateway.log := by
  obtain running | returned := List.mem_append.mp member
  · exact (sound.running handler running).sound
  · exact (sound.returned handler returned).1

/-- Whatever is open after a part of the log was ordered before the process began. -/
theorem Sound.opened (sound : program.Sound arith log) {earlier : List OrderEvent}
    (within : earlier <+: program.process.gateway.log.events) {orderId : List UInt8}
    (isOpen : ((OrderManager.project arith earlier).find? orderId).map Order.isOpen = some true) :
    orderId ∈ OrderManager.openedIds log.events := by
  obtain ⟨order, found, _⟩ := Option.map_eq_some_iff.mp isOpen
  have inKeys := SlotTable.mem_keys_of_find? found
  rw [OrderManager.keys_project] at inKeys
  have named := mem_firstMentions.mp (List.mem_of_mem_take inKeys)
  rw [← sound.extended.openedIds_eq]
  obtain ⟨rest, whole⟩ := within
  rw [← whole, OrderManager.openedIds_append]
  exact List.mem_append_left _ named

/-- Whatever arrives while the program runs, it places no order and ends cleanly only after a
signal. A handler asks about nobody twice, and only about orders that the log held when the
program started and that were open, by the log, at a moment since the signal; and once it has
returned, it has asked about exactly the orders that were open when the signal came, all but those
on which a report was in the works meanwhile. -/
theorem signal_cancels_logged {limits : RiskLimits}
    (run : Relation.ReflTransGen (Step arith) (launched arith limits log) program) :
    Extends log program.process.gateway.log ∧
    (program.phase = .exited 0 → program.shutdown = true) ∧
    (∀ handler ∈ program.handlers ++ program.returned, handler.asked.Nodup ∧
      ∀ orderId ∈ handler.asked, orderId ∈ OrderManager.openedIds log.events ∧
        ∃ earlier, earlier <+: program.process.gateway.log.events ∧
          handler.log.size ≤ earlier.length + 1 ∧
          ((OrderManager.project arith earlier).find? orderId).map Order.isOpen = some true) ∧
    ∀ handler ∈ program.returned, ∀ orderId ∉ handler.touched,
      (orderId ∈ handler.asked ↔
        ∃ order, (OrderManager.initial.replayFrom arith handler.log).find? orderId = some order ∧
          order.isOpen = true) := by
  have sound := sound_run run
  refine ⟨sound.extended, fun exited => sound.woken (.inr exited), fun handler member => ?_,
    fun handler member orderId untouched => ?_⟩
  · have known := sound.handler member
    refine ⟨known.nodup_asked, fun orderId asked => ?_⟩
    obtain ⟨earlier, within, long, isOpen⟩ := known.wasOpen asked
    exact ⟨sound.opened within isOpen, earlier, within, long, isOpen⟩
  · obtain ⟨known, finished⟩ := sound.returned handler member
    exact known.mem_asked_iff finished untouched

/-- A program started on the log of a run that placed two orders and died. -/
def relaunched : Program :=
  launched .wrapping {} ((FIXGateway.connectedGateway.sendOrder .wrapping FIXGateway.sampleArgs 0
    true).gateway.sendOrder .wrapping FIXGateway.sampleArgs 0 true).gateway.log

/-- The fill of the second one. -/
def secondFill : OrderEvent :=
  MessageTranslator.reportedEvent .wrapping (FIXGateway.filledReport (ascii "ORD1")) .fullFill
    (ascii "AAPL") (ascii "ORD1") '1'

/-- A signal comes, the handler looks at the first order, the second is filled, and the handler
goes on: it has asked about the first one only. -/
theorem signal_cancels_logged_meanwhile :
    ∃ program, Relation.ReflTransGen (Step .wrapping) relaunched program ∧
      ∃ handler ∈ program.returned,
        ascii "ORD0" ∈ handler.asked ∧ ascii "ORD1" ∉ handler.asked := by
  have created : Relation.ReflTransGen (Step .wrapping) relaunched _ := .single (.onCreate rfl)
  have started := created.tail (.start rfl)
  have signalled := started.tail (.signal ⟨fun _ => Phase.noConfusion, Phase.noConfusion⟩)
  have first := signalled.tail
    (@Step.look .wrapping _ [] [] _ _ ⟨fun _ => Phase.noConfusion, Phase.noConfusion⟩ rfl rfl)
  have received := first.tail (.inbound (.inl rfl)
    (@InboundStep.receive .wrapping _ secondFill (FIXGateway.filledReport (ascii "ORD1")) rfl
      (MessageTranslator.fromExecutionReport_eq_some_iff.mpr
        ⟨'2', .fullFill, _, _, '1', rfl, rfl, rfl, rfl, rfl, rfl⟩)))
  have appended := received.tail (.inbound (.inl rfl) (.append 0 rfl rfl))
  have tracked := appended.tail (.inbound (.inl rfl) (.track rfl))
  have applied := tracked.tail (.inbound (.inl rfl) (.apply rfl))
  have second := applied.tail
    (@Step.look .wrapping _ [] [] _ _ ⟨fun _ => Phase.noConfusion, Phase.noConfusion⟩ rfl rfl)
  have run := second.tail (@Step.finish .wrapping _ [] [] _
    ⟨fun _ => Phase.noConfusion, Phase.noConfusion⟩ rfl (by decide +kernel))
  refine ⟨_, run, _, List.mem_cons_self, ?_, by decide +kernel⟩
  exact ((signal_cancels_logged run).2.2.2 _ List.mem_cons_self (ascii "ORD0")
    (by decide +kernel)).mpr (by decide +kernel)

end Program

end Gateway

end Hft
