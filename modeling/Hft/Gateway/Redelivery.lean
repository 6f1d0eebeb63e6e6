import Hft.Gateway.CrashRecovery
import Hft.Logical.Stutter
import Hft.Projections

/-!
# Reports that come again

The session layer counts a message once its callback has returned, in a store that outlives the
process, and asks the exchange for everything it has not counted. A process that ends while
`onMessage` runs therefore gets the report again, whether or not its append had come to the header
store. `onMessage` does not ask if it has seen an execution before, so the log keeps every report,
in order, and a second entry for one that was interrupted too late.
-/

namespace Hft

open Logical Relation

namespace PositionTracker

/-- What an event adds to a symbol's net quantity. -/
def addedBy (sym : StringView) (event : OrderEvent) : Int :=
  if event.isFill ∧ event.symbol.string = fieldKey sym then event.side.sign * event.fillQty else 0

theorem signedTotal_fillsOf (sym : StringView) (events : List OrderEvent) :
    signedTotal (fillsOf sym events) = (events.map (addedBy sym)).sum := by
  induction events with
  | nil => rfl
  | cons event rest ih =>
      unfold fillsOf at ih ⊢
      by_cases own : event.isFill ∧ event.symbol.string = fieldKey sym
      · rw [List.filter_cons_of_pos (by simpa using own), List.map_cons, List.sum_cons, ← ih,
          addedBy, if_pos own]
        simp [signedTotal]
      · rw [List.filter_cons_of_neg (by simpa using own), List.map_cons, List.sum_cons, ← ih,
          addedBy, if_neg own, zero_add]

theorem abs_addedBy_le {event : OrderEvent} {largest : Int} (bounded : |event.fillQty| ≤ largest)
    (sym : StringView) : |addedBy sym event| ≤ largest := by
  unfold addedBy
  split
  · rw [abs_mul]
    cases event.side <;> simpa [Side.sign] using bounded
  · rw [abs_zero]
    exact (abs_nonneg _).trans bounded

/-- A symbol without a slot had no fills, as long as there were slots to be had. -/
theorem netQty_project (arith : Arithmetic) {events : List OrderEvent}
    (few : (fillSymbols events).dedup.length ≤ maxSymbols) (short : events.length ≤ maxEvents)
    (fields : ∀ event ∈ events, event.isFill = true → InRange 32 event.fillQty)
    (sym : StringView) :
    (project arith events).netQty sym = (events.map (addedBy sym)).sum := by
  rw [← signedTotal_fillsOf, netQty]
  cases found : (project arith events).get sym with
  | none =>
      have untraded : fillsOf sym events = [] := by
        by_contra traded
        rw [get_project_of_room arith few traded] at found
        cases found
      rw [untraded]
      rfl
  | some position =>
      have own : ∀ fill ∈ fillsOf sym events, InRange 32 fill.fillQty := by
        intro fill member
        obtain ⟨inEvents, isFill, _⟩ := mem_fillsOf_iff.mp member
        exact fields fill inEvents isFill
      rw [eq_foldFills_of_get found]
      exact (netQty_foldFills arith sym _).trans
        (signedSum_eq_of_short arith own ((List.length_filter_le _ _).trans short))

end PositionTracker

namespace Gateway

open MappedLog (Entry Phase Run openOrCreate)

/-- The event of the callback that is running. -/
def Inbound.event : Inbound → Option OrderEvent
  | .idle => none
  | .translated event => some event
  | .appending event => some event
  | .logged event => some event
  | .tracked event => some event

/-- The event of the callback is in the log. -/
def Inbound.settled (committed : Bool) : Inbound → Bool
  | .idle => false
  | .translated _ => false
  | .appending _ => committed
  | .logged _ => true
  | .tracked _ => true

/-- A thread outside the callback has no event in the log on its way. -/
theorem Inbound.settled_of_event_none {inbound : Inbound} (outside : inbound.event = none)
    (committed : Bool) : inbound.settled committed = false := by
  cases inbound with
  | idle => rfl
  | translated event => rfl
  | appending event => cases outside
  | logged event => cases outside
  | tracked event => cases outside

/-- The orders of `send_order` that are not in the log yet, or whose append has not returned. -/
def Strategy.placing : Strategy → List OrderEvent
  | .numbered event => [event]
  | .appending event => [event]
  | _ => []

namespace Host

/-- The next process on the file. -/
def restarted (arith : Arithmetic) (host : Host) (limits : RiskLimits) (log : MappedLog) :
    Host where
  run := { host.run with log := log, phase := .idle }
  tracker := log.replay (PositionTracker.applyEvent arith) PositionTracker.initial
  orders := log.replay (OrderManager.applyEvent arith) OrderManager.initial
  limits := limits
  connected := false
  orderCounter := 0
  strategy := .idle
  inbound := .idle
  handed := host.handed

/-- The reports in the log, as they were booked. -/
def booked (host : Host) : List OrderEvent :=
  (host.run.kept.map Entry.event).filter fun event => event.type ≠ .newOrder

/-- The report at hand is in the log. -/
def settled (host : Host) : Bool := host.inbound.settled host.run.phase.committed

end Host

/-- The process under its session layer, which has counted some of the exchange's reports. The
callback on the next one may have returned already. -/
structure Feed where
  host : Host
  counted : Nat
  returned : Bool
  repeats : Nat

namespace Feed

/-- The first process, before the first report. -/
def created (limits : RiskLimits) : Feed := ⟨Host.created limits, 0, false, 0⟩

/-- A report has been delivered and not been counted. -/
def atHand (feed : Feed) : Bool := feed.returned || feed.host.inbound.event.isSome

/-- What the session layer and the process do. `repeats` counts the processes that ended with a
report at hand. Order ids start again in each process, so a report may come on the id of an order
that is being placed, and an order be placed under the id of a report at hand. As in `Host.Step`,
no append begins while the other thread's is under way. -/
inductive Step (arith : Arithmetic) (reports : List ExecutionReport) (feed : Feed) :
    Feed → Prop where
  | deliver {report : ExecutionReport} {event : OrderEvent} (waiting : feed.returned = false)
      (idle : feed.host.inbound = .idle) (next : reports[feed.counted]? = some report)
      (translated : MessageTranslator.fromExecutionReport arith report = .ok (some event)) :
      Step arith reports feed
        { feed with host := { feed.host with inbound := .translated event } }
  | pass {report : ExecutionReport} (waiting : feed.returned = false)
      (idle : feed.host.inbound = .idle) (next : reports[feed.counted]? = some report)
      (unbooked : MessageTranslator.fromExecutionReport arith report = .ok none) :
      Step arith reports feed { feed with returned := true }
  | place (args : FIXGateway.SendArgs) (idle : feed.host.strategy = .idle)
      (connected : feed.host.connected = true) :
      Step arith reports feed { feed with host := { feed.host with
        orderCounter := feed.host.gateway.nextOrderId.2.orderCounter
        strategy := .numbered (feed.host.gateway.newOrderEvent args) } }
  | proceed {host : Host} (taken : Host.Step arith feed.host host)
      (still : host.inbound.event = feed.host.inbound.event) :
      Step arith reports feed { feed with host := host }
  | finish {event : OrderEvent} (tracked : feed.host.inbound = .tracked event) :
      Step arith reports feed { feed with
        host := { feed.host with
          orders := feed.host.orders.applyEvent arith event
          inbound := .idle }
        returned := true }
  | count (returned : feed.returned = true) :
      Step arith reports feed { feed with counted := feed.counted + 1, returned := false }
  | restart (limits : RiskLimits) {log : MappedLog}
      (opened : openOrCreate (some feed.host.run.log.file) = .ok log) :
      Step arith reports feed
        { host := feed.host.restarted arith limits log
          counted := feed.counted
          returned := false
          repeats := feed.repeats + if feed.atHand then 1 else 0 }

end Feed

/-- The events that some of the reports are booked as. -/
def bookedEvents (arith : Arithmetic) (reports : List ExecutionReport) : List OrderEvent :=
  reports.filterMap (bookedEvent arith)

theorem bookedEvents_take_succ (arith : Arithmetic) (reports : List ExecutionReport)
    (count : Nat) :
    bookedEvents arith (reports.take (count + 1)) = bookedEvents arith (reports.take count) ++
      (reports[count]?.bind (bookedEvent arith)).toList := by
  unfold bookedEvents
  rw [List.take_add_one, List.filterMap_append]
  congr 1
  cases reports[count]? with
  | none => rfl
  | some report => cases made : bookedEvent arith report <;> simp [made]

namespace Host

variable {arith : Arithmetic} {host after : Host}

/-- Only new orders are placed. -/
def PlacesOrders (host : Host) : Prop :=
  ∀ event ∈ host.strategy.placing, event.type = .newOrder

theorem placesOrders_step (places : host.PlacesOrders) (taken : Step arith host after) :
    after.PlacesOrders := by
  cases taken with
  | sendStart args idle connected apart =>
      intro event member
      rw [List.mem_singleton.mp member]
      rfl
  | sendAppend now numbered free room =>
      unfold PlacesOrders at places
      rw [numbered] at places
      exact places
  | sendThrow numbered free full => exact fun _ member => (nomatch member)
  | store taken busy still => exact places
  | sendReturn appending persisted => exact fun _ member => (nomatch member)
  | sendApply logged => exact fun _ member => (nomatch member)
  | hand applied => exact fun _ member => (nomatch member)
  | receive report idle translated apart => exact places
  | receiveAppend now translated free room => exact places
  | receiveReturn appending persisted => exact places
  | receiveTrack logged => exact places
  | receiveApply tracked => exact places
  | markToMarket sym mktPriceFp => exact places
  | onLogon => exact places
  | onLogout => exact places
  | restart limits opened => exact fun _ member => (nomatch member)

theorem settled_of_not_writing {inbound : Inbound} (quiet : inbound.writing = [])
    (committed committed' : Bool) : inbound.settled committed = inbound.settled committed' := by
  cases inbound with
  | appending event => cases quiet
  | idle => rfl
  | translated event => rfl
  | logged event => rfl
  | tracked event => rfl

/-- A step within one callback changes nothing in the log's reports, or it is the header store of
the callback's append. -/
theorem booked_step (sound : host.Sound) (places : host.PlacesOrders)
    (reports : ∀ event, host.inbound.event = some event → event.type ≠ .newOrder)
    (taken : Step arith host after) (still : after.inbound.event = host.inbound.event) :
    (after.booked = host.booked ∧ after.settled = host.settled) ∨
      ∃ event, host.inbound.event = some event ∧ host.settled = false ∧ after.settled = true ∧
        after.booked = host.booked ++ [event] := by
  cases taken with
  | sendStart args idle connected apart => exact .inl ⟨rfl, rfl⟩
  | sendAppend now numbered free room =>
      obtain ⟨_, quiet⟩ := sound.writing_of_free free
      exact .inl ⟨rfl, settled_of_not_writing quiet _ _⟩
  | sendThrow numbered free full => exact .inl ⟨rfl, rfl⟩
  | @store run taken busy running =>
      obtain ⟨_, ⟨kept, committed⟩ | ⟨entry, pending, before, committed, kept⟩⟩ :=
        store_cases taken busy running
      · left
        simp [booked, settled, kept, committed]
      · obtain ⟨strategy, quiet⟩ | ⟨_, inbound⟩ := sound.writer_cases pending
        · left
          have isNew : entry.event.type = .newOrder :=
            places entry.event (by rw [strategy]; exact List.mem_singleton_self _)
          refine ⟨?_, settled_of_not_writing quiet _ _⟩
          simp [booked, kept, isNew]
        · right
          have event : host.inbound.event = some entry.event := by rw [inbound]; rfl
          refine ⟨entry.event, event, ?_, ?_, ?_⟩
          · simp [settled, inbound, before, Inbound.settled]
          · simp [settled, inbound, committed, Inbound.settled]
          · simp [booked, kept, reports _ event]
  | @sendReturn event entry appending persisted =>
      obtain ⟨_, quiet⟩ | ⟨idle, _⟩ := @Sound.writer_cases host sound entry (by rw [persisted]; rfl)
      · exact .inl ⟨rfl, settled_of_not_writing quiet _ _⟩
      · rw [appending] at idle
        cases idle
  | sendApply logged => exact .inl ⟨rfl, rfl⟩
  | hand applied => exact .inl ⟨rfl, rfl⟩
  | receive report idle translated apart =>
      rw [idle] at still
      cases still
  | receiveAppend now translated free room =>
      left
      simp only [settled, translated]
      exact ⟨rfl, rfl⟩
  | receiveReturn appending persisted =>
      left
      simp only [settled, appending, persisted]
      exact ⟨rfl, rfl⟩
  | receiveTrack logged =>
      left
      simp only [settled, logged]
      exact ⟨rfl, rfl⟩
  | receiveApply tracked =>
      rw [tracked] at still
      cases still
  | markToMarket sym mktPriceFp => exact .inl ⟨rfl, rfl⟩
  | onLogon => exact .inl ⟨rfl, rfl⟩
  | onLogout => exact .inl ⟨rfl, rfl⟩
  | restart limits opened =>
      have outside : host.inbound.event = none := still.symm
      refine .inl ⟨rfl, ?_⟩
      rw [settled, settled, Inbound.settled_of_event_none outside]
      rfl

/-- A callback begins. -/
theorem Sound.received (sound : host.Sound) (idle : host.inbound = .idle) (event : OrderEvent) :
    Sound { host with inbound := .translated event } := by
  have writer := sound.writer
  rw [idle] at writer
  exact ⟨sound.consistent, writer, sound.durable⟩

/-- A call of `send_order` begins. -/
theorem Sound.placed (sound : host.Sound) (idle : host.strategy = .idle) (event : OrderEvent)
    (orderCounter : Nat) :
    Sound { host with orderCounter := orderCounter, strategy := .numbered event } := by
  have writer := sound.writer
  have durable := sound.durable
  rw [idle] at writer durable
  exact ⟨sound.consistent, writer, durable⟩

end Host

namespace Feed

variable {arith : Arithmetic} {reports : List ExecutionReport} {feed after : Feed}

/-- The report at hand has gone through, into the log if it is one to be booked. -/
def done (feed : Feed) : Bool := feed.returned || feed.host.settled

/-- `booked` is the counted reports, with repeats. The one at hand is in it when it is done with,
and may be in it before, from a process that ended there. -/
def Account (arith : Arithmetic) (reports : List ExecutionReport) (counted repeats : Nat)
    (done : Bool) (booked : List OrderEvent) : Prop :=
  ∃ extra,
    (done = false ∧ extra ≤ repeats ∧
      Stutters extra (bookedEvents arith (reports.take counted)) booked) ∨
    (extra + (if done then 0 else 1) ≤ repeats ∧
      Stutters extra (bookedEvents arith (reports.take (counted + 1))) booked)

namespace Account

variable {counted repeats : Nat} {done : Bool} {booked : List OrderEvent}

/-- The header store of the append. -/
theorem book (account : Account arith reports counted repeats false booked) {event : OrderEvent}
    (next : reports[counted]?.bind (bookedEvent arith) = some event) :
    Account arith reports counted repeats true (booked ++ [event]) := by
  have whole : bookedEvents arith (reports.take (counted + 1)) =
      bookedEvents arith (reports.take counted) ++ [event] := by
    rw [bookedEvents_take_succ, next, Option.toList_some]
  obtain ⟨extra, ⟨_, few, stutters⟩ | ⟨few, stutters⟩⟩ := account
  · refine ⟨extra, .inr ⟨few, ?_⟩⟩
    rw [whole]
    exact .next event stutters
  · refine ⟨extra + 1, .inr ⟨few, ?_⟩⟩
    rw [whole] at stutters ⊢
    exact .again stutters

/-- A report without an event. -/
theorem pass (account : Account arith reports counted repeats false booked)
    (next : reports[counted]?.bind (bookedEvent arith) = none) :
    Account arith reports counted repeats true booked := by
  have same : bookedEvents arith (reports.take (counted + 1)) =
      bookedEvents arith (reports.take counted) := by
    rw [bookedEvents_take_succ, next, Option.toList_none, List.append_nil]
  obtain ⟨extra, ⟨_, few, stutters⟩ | ⟨few, stutters⟩⟩ := account
  · refine ⟨extra, .inr ⟨few, ?_⟩⟩
    rw [same]
    exact stutters
  · exact ⟨extra, .inr ⟨(Nat.le_add_right _ _).trans few, stutters⟩⟩

theorem count (account : Account arith reports counted repeats true booked) :
    Account arith reports (counted + 1) repeats false booked := by
  obtain ⟨extra, ⟨open_, _⟩ | ⟨few, stutters⟩⟩ := account
  · cases open_
  · exact ⟨extra, .inl ⟨rfl, few, stutters⟩⟩

/-- The process ends with a report at hand. -/
theorem ended (account : Account arith reports counted repeats done booked) :
    Account arith reports counted (repeats + 1) false booked := by
  obtain ⟨extra, ⟨_, few, stutters⟩ | ⟨few, stutters⟩⟩ := account
  · exact ⟨extra, .inl ⟨rfl, few.trans (Nat.le_succ _), stutters⟩⟩
  · exact ⟨extra, .inr ⟨Nat.succ_le_succ ((Nat.le_add_right _ _).trans few), stutters⟩⟩

end Account

/-- The log holds the reports in order, and the event in a callback is that of the first report
that is not counted. -/
structure Relays (arith : Arithmetic) (reports : List ExecutionReport) (feed : Feed) : Prop where
  sound : feed.host.Sound
  placesOrders : feed.host.PlacesOrders
  current : ∀ event, feed.host.inbound.event = some event → feed.returned = false ∧
    reports[feed.counted]?.bind (bookedEvent arith) = some event
  account : Account arith reports feed.counted feed.repeats feed.done feed.host.booked

namespace Relays

theorem of_created (arith : Arithmetic) (reports : List ExecutionReport) (limits : RiskLimits) :
    (created limits).Relays arith reports where
  sound := Host.sound_created limits
  placesOrders _ member := nomatch member
  current _ running := nomatch running
  account := ⟨0, .inl ⟨rfl, Nat.le_refl _, .nil⟩⟩

/-- Reports are never booked as new orders. -/
theorem ne_newOrder (relays : feed.Relays arith reports) {event : OrderEvent}
    (running : feed.host.inbound.event = some event) : event.type ≠ .newOrder := by
  obtain ⟨report, _, made⟩ := Option.bind_eq_some_iff.mp (relays.current event running).2
  unfold bookedEvent at made
  split at made
  · rename_i translated
    rw [made] at translated
    exact MessageTranslator.type_ne_newOrder translated
  · cases made

/-- Nothing at hand, nothing done. -/
theorem done_of_not_atHand (quiet : feed.atHand = false) : feed.done = false := by
  obtain ⟨waiting, outside⟩ := Bool.or_eq_false_iff.mp quiet
  rw [Option.isSome_eq_false_iff, Option.isNone_iff_eq_none] at outside
  rw [done, waiting, Host.settled, Inbound.settled_of_event_none outside]
  rfl

theorem step (relays : feed.Relays arith reports) (taken : Step arith reports feed after) :
    after.Relays arith reports := by
  have account := relays.account
  cases taken with
  | @deliver report event waiting idle next translated =>
      refine ⟨relays.sound.received idle event, relays.placesOrders, ?_, ?_⟩
      · rintro _ ⟨⟩
        refine ⟨waiting, ?_⟩
        rw [next, Option.bind_some, bookedEvent, translated]
      · rw [done_of_not_atHand (by simp [atHand, waiting, idle, Inbound.event])] at account
        simp only [done, waiting]
        exact account
  | pass waiting idle next unbooked =>
      refine ⟨relays.sound, relays.placesOrders, fun event running => ?_, ?_⟩
      · rw [idle] at running
        cases running
      · rw [done_of_not_atHand (by simp [atHand, waiting, idle, Inbound.event])] at account
        exact account.pass (by rw [next, Option.bind_some, bookedEvent, unbooked])
  | place args idle connected =>
      refine ⟨relays.sound.placed idle _ _, fun event member => ?_, relays.current, account⟩
      rw [List.mem_singleton.mp member]
      rfl
  | @proceed host taken still =>
      refine ⟨relays.sound.step taken, Host.placesOrders_step relays.placesOrders taken, ?_, ?_⟩
      · rw [still]
        exact relays.current
      · obtain ⟨booked, settled⟩ | ⟨event, running, before, settled, booked⟩ := Host.booked_step
          relays.sound relays.placesOrders (fun _ running => relays.ne_newOrder running) taken still
        · simpa only [done, booked, settled] using account
        · obtain ⟨waiting, next⟩ := relays.current event running
          simp only [done, waiting, before, Bool.false_or] at account
          simpa only [done, waiting, settled, booked, Bool.false_or] using account.book next
  | @finish event tracked =>
      have applied := @Host.Step.receiveApply arith feed.host event tracked
      refine ⟨relays.sound.step applied, Host.placesOrders_step relays.placesOrders applied,
        fun _ running => (nomatch running), ?_⟩
      have logged : feed.done = true := by simp [done, Host.settled, tracked, Inbound.settled]
      rw [logged] at account
      exact account
  | count returned =>
      have outside : feed.host.inbound.event = none := by
        refine Option.eq_none_iff_forall_not_mem.mpr fun event running => ?_
        rw [(relays.current event running).1] at returned
        cases returned
      refine ⟨relays.sound, relays.placesOrders, fun event running => ?_, ?_⟩
      · rw [outside] at running
        cases running
      · simp only [done, returned, Bool.true_or] at account
        have fresh : Host.settled feed.host = false := Inbound.settled_of_event_none outside _
        simpa only [done, fresh, Bool.false_or] using account.count
  | @restart limits log opened =>
      have restarted := @Host.Step.restart arith feed.host limits log opened
      refine ⟨relays.sound.step restarted, Host.placesOrders_step relays.placesOrders restarted,
        fun _ running => (nomatch running), ?_⟩
      change Account arith reports feed.counted _ false feed.host.booked
      cases quiet : feed.atHand with
      | true => exact account.ended
      | false =>
          rw [done_of_not_atHand quiet] at account
          exact account

theorem of_run {limits : RiskLimits}
    (run : ReflTransGen (Step arith reports) (created limits) feed) :
    feed.Relays arith reports := by
  induction run with
  | refl => exact of_created arith reports limits
  | tail _ taken ih => exact ih.step taken

end Relays

/-! ## The positions of the next process -/

/-- The stamps and the new orders add nothing to a net quantity. -/
theorem sum_stampedEntries (host : Host) (sym : StringView) :
    ((Run.stampedEntries host.run.kept).map (PositionTracker.addedBy sym)).sum =
      (host.booked.map (PositionTracker.addedBy sym)).sum := by
  have unstamped : (Run.stampedEntries host.run.kept).map (PositionTracker.addedBy sym) =
      (host.run.kept.map Entry.event).map (PositionTracker.addedBy sym) := by
    apply List.ext_getElem
    · simp [Run.stampedEntries]
    · intro index _ _
      simp only [Run.stampedEntries, List.getElem_map, List.getElem_mapIdx]
      rfl
  rw [unstamped, Host.booked]
  induction host.run.kept.map Entry.event with
  | nil => rfl
  | cons event rest ih =>
      by_cases isNew : event.type = .newOrder
      · have nothing : PositionTracker.addedBy sym event = 0 := by
          simp [PositionTracker.addedBy, OrderEvent.isFill, isNew]
        rw [List.filter_cons_of_neg (by simpa using isNew), List.map_cons, List.sum_cons, ih,
          nothing, zero_add]
      · rw [List.filter_cons_of_pos (by simpa using isNew), List.map_cons, List.map_cons,
          List.sum_cons, List.sum_cons, ih]

/-- A fill in the log is a booked report, with stamps. -/
theorem exists_booked_of_fill {host : Host} {event : OrderEvent}
    (member : event ∈ Run.stampedEntries host.run.kept) (isFill : event.isFill = true) :
    ∃ original ∈ host.booked, original.isFill = true ∧ original.symbol = event.symbol ∧
      original.fillQty = event.fillQty := by
  obtain ⟨sequence, below, rfl⟩ := List.mem_mapIdx.mp member
  refine ⟨host.run.kept[sequence].event, List.mem_filter.mpr ⟨?_, ?_⟩, isFill, rfl, rfl⟩
  · exact List.mem_map_of_mem (List.getElem_mem below)
  · have fill : host.run.kept[sequence].event.isFill = true := isFill
    refine decide_eq_true fun isNew => ?_
    rw [OrderEvent.isFill, isNew] at fill
    cases fill

/-- The next process holds what the booked reports add up to, if they are some of a few reports
whose quantities fit their field. -/
theorem netQty_replay {host : Host} (sound : host.Sound) {originals : List OrderEvent}
    (among : host.booked ⊆ originals)
    (few : (PositionTracker.fillSymbols originals).dedup.length ≤ maxSymbols)
    (fields : ∀ event ∈ originals, InRange 32 event.fillQty) {log : MappedLog}
    (opened : openOrCreate (some host.run.log.file) = .ok log) (sym : StringView) :
    (log.replay (PositionTracker.applyEvent arith) PositionTracker.initial).netQty sym =
      (host.booked.map (PositionTracker.addedBy sym)).sum := by
  have consistent := sound.consistent
  have known : PositionTracker.fillSymbols (Run.stampedEntries host.run.kept) ⊆
      PositionTracker.fillSymbols originals := by
    intro symbol member
    obtain ⟨event, inFills, rfl⟩ := List.mem_map.mp member
    obtain ⟨inLog, isFill⟩ := List.mem_filter.mp inFills
    obtain ⟨original, kept, fill, symbol, _⟩ := exists_booked_of_fill inLog isFill
    rw [← symbol]
    exact List.mem_map_of_mem (List.mem_filter.mpr ⟨among kept, fill⟩)
  have fewer : (PositionTracker.fillSymbols
      (Run.stampedEntries host.run.kept)).dedup.length ≤ maxSymbols :=
    (List.subperm_of_subset (List.nodup_dedup _) fun _ member => List.mem_dedup.mpr
      (known (List.mem_dedup.mp member))).length_le.trans few
  have inField : ∀ event ∈ Run.stampedEntries host.run.kept, event.isFill = true →
      InRange 32 event.fillQty := by
    intro event inLog isFill
    obtain ⟨original, kept, _, _, qty⟩ := exists_booked_of_fill inLog isFill
    rw [← qty]
    exact fields original (among kept)
  have net := PositionTracker.netQty_project arith fewer
    (by simpa [Run.stampedEntries] using consistent.bounded) inField sym
  obtain ⟨tracker, _⟩ := @Host.view_restart arith host sound _ opened
  rw [tracker, PositionTracker.replayFrom, EventLog.replay, Host.events_log consistent,
    ← sum_stampedEntries]
  exact net

/-- Whenever the process ends, the log holds every report that was counted, in the order of the
feed, and a second entry at most for each process that ended with a report at hand. The positions
of the next process are off by these entries alone. -/
theorem redelivered {limits : RiskLimits}
    (run : ReflTransGen (Step arith reports) (created limits) feed) :
    ∃ through extra, (through = feed.counted ∨ through = feed.counted + 1) ∧
      extra ≤ feed.repeats ∧
      Stutters extra (bookedEvents arith (reports.take through)) feed.host.booked ∧
      ∃ log, openOrCreate (some feed.host.run.log.file) = .ok log ∧
        ∀ (sym : StringView) (largest : Int),
          (PositionTracker.fillSymbols
            (bookedEvents arith (reports.take through))).dedup.length ≤ maxSymbols →
          (∀ event ∈ bookedEvents arith (reports.take through), |event.fillQty| ≤ largest) →
          largest < 2147483648 →
          |(log.replay (PositionTracker.applyEvent arith) PositionTracker.initial).netQty sym -
              PositionTracker.signedTotal (PositionTracker.fillsOf sym
                (bookedEvents arith (reports.take through)))| ≤ largest * extra := by
  have relays := Relays.of_run run
  obtain ⟨opened, _⟩ := relays.sound.consistent.reopened
  obtain ⟨through, extra, near, few, stutters⟩ : ∃ through extra,
      (through = feed.counted ∨ through = feed.counted + 1) ∧ extra ≤ feed.repeats ∧
        Stutters extra (bookedEvents arith (reports.take through)) feed.host.booked := by
    obtain ⟨extra, ⟨_, few, stutters⟩ | ⟨few, stutters⟩⟩ := relays.account
    · exact ⟨_, extra, .inl rfl, few, stutters⟩
    · exact ⟨_, extra, .inr rfl, (Nat.le_add_right _ _).trans few, stutters⟩
  refine ⟨through, extra, near, few, stutters, _, opened, fun sym largest room bounded fits => ?_⟩
  have fields : ∀ event ∈ bookedEvents arith (reports.take through),
      InRange 32 event.fillQty := by
    intro event member
    have small := abs_le.mp (bounded event member)
    exact inRange_32 (by omega) (by omega)
  rw [netQty_replay relays.sound stutters.subset room fields opened,
    PositionTracker.signedTotal_fillsOf]
  exact stutters.abs_sum_sub_le _ fun event member =>
    PositionTracker.abs_addedBy_le (bounded event member) sym

/-! ## A report that was booked twice -/

/-- A report that comes while nothing else happens is in the log before its append returns. -/
theorem exists_persisted {event : OrderEvent} {report : ExecutionReport}
    (waiting : feed.returned = false) (idle : feed.host.inbound = .idle)
    (free : feed.host.run.phase = .idle) (room : feed.host.run.log.nextSeq < maxEvents)
    (next : reports[feed.counted]? = some report)
    (translated : MessageTranslator.fromExecutionReport arith report = .ok (some event)) :
    ∃ run, ReflTransGen (Step arith reports) feed
        { feed with host := { feed.host with run := run, inbound := .appending event } } ∧
      run.kept = feed.host.run.kept ++ [⟨event, 0⟩] := by
  obtain ⟨⟨⟨log, phase, written, kept, returned⟩, tracker, orders, limits, connected, counter,
    strategy, inbound, handed⟩, counted, gone, repeats⟩ := feed
  cases waiting
  cases idle
  cases free
  have delivered : ReflTransGen (Step arith reports) ⟨⟨⟨log, .idle, written, kept, returned⟩,
      tracker, orders, limits, connected, counter, strategy, .idle, handed⟩, counted, false,
      repeats⟩ _ := .single (.deliver rfl rfl next translated)
  have begun := delivered.tail (.proceed (.receiveAppend 0 rfl rfl room) rfl)
  have stored := begun.tail
    (.proceed (.store (.store rfl) Phase.noConfusion Phase.noConfusion) rfl)
  have published := stored.tail
    (.proceed (.store (.publish rfl) Phase.noConfusion Phase.noConfusion) rfl)
  have persisted := published.tail
    (.proceed (.store (.persist rfl) Phase.noConfusion Phase.noConfusion) rfl)
  exact ⟨_, persisted, rfl⟩

/-- The only report of the day, on an order that is not in the log. -/
def onlyReport : ExecutionReport := FIXGateway.filledReport (ascii "ORD0")

/-- What it is booked as. -/
def onlyEvent : OrderEvent :=
  MessageTranslator.reportedEvent .wrapping onlyReport .fullFill (ascii "AAPL") (ascii "ORD0") '1'

theorem translated_onlyReport :
    MessageTranslator.fromExecutionReport .wrapping onlyReport = .ok (some onlyEvent) :=
  MessageTranslator.fromExecutionReport_eq_some_iff.mpr
    ⟨'2', .fullFill, _, _, '1', rfl, rfl, rfl, rfl, rfl, rfl⟩

/-- The process ends right after the header store, and the next one gets the report again. -/
theorem exists_repeated : ∃ feed, ReflTransGen (Step .wrapping [onlyReport]) (created {}) feed ∧
    feed.counted = 0 ∧ feed.repeats = 1 ∧ feed.host.booked = [onlyEvent, onlyEvent] := by
  obtain ⟨first, once, kept⟩ := @exists_persisted .wrapping [onlyReport] (created {}) onlyEvent
    onlyReport rfl rfl rfl (show 0 < maxEvents by decide) rfl translated_onlyReport
  have consistent := (Relays.of_run once).sound.consistent
  obtain ⟨opened, _⟩ := consistent.reopened
  have reopened := once.tail (.restart {} opened)
  have room : first.log.file.nextSequence < maxEvents := by
    have header : first.log.file.nextSequence = first.kept.length := consistent.header
    rw [header, kept]
    decide
  let waiting : Feed := ⟨Host.restarted .wrapping { Host.created {} with run := first } {}
    ⟨first.log.file, first.log.file.nextSequence⟩, 0, false, 1⟩
  obtain ⟨second, again, keptAgain⟩ := @exists_persisted .wrapping [onlyReport] waiting onlyEvent
    onlyReport rfl rfl rfl room rfl translated_onlyReport
  refine ⟨_, reopened.trans again, rfl, rfl, ?_⟩
  have booked : onlyEvent.type ≠ .newOrder :=
    MessageTranslator.type_ne_newOrder translated_onlyReport
  have both : second.kept = [⟨onlyEvent, 0⟩, ⟨onlyEvent, 0⟩] := by
    rw [keptAgain]
    change first.kept ++ _ = _
    rw [kept]
    rfl
  simp [Host.booked, both, booked]

/-- The next process holds two shares where one was bought. -/
theorem redelivered_twice : ∃ feed log,
    ReflTransGen (Step .wrapping [onlyReport]) (created {}) feed ∧ feed.repeats = 1 ∧
    openOrCreate (some feed.host.run.log.file) = .ok log ∧
    let net := (log.replay (PositionTracker.applyEvent .wrapping) PositionTracker.initial).netQty
      (StringView.ofList (ascii "AAPL"))
    net = 2 ∧ |net - 1| ≤ feed.repeats := by
  obtain ⟨feed, run, counted, repeats, twice⟩ := exists_repeated
  obtain ⟨through, extra, near, few, stutters, log, opened, close⟩ := redelivered run
  refine ⟨feed, log, run, repeats, opened, ?_⟩
  specialize close (StringView.ofList (ascii "AAPL"))
  have once : bookedEvents .wrapping [onlyReport] = [onlyEvent] := by
    simp [bookedEvents, bookedEvent, translated_onlyReport]
  have whole : bookedEvents .wrapping ([onlyReport].take through) = [onlyEvent] := by
    rw [counted] at near
    rw [twice] at stutters
    obtain rfl | rfl := near
    · exact absurd (stutters.subset List.mem_cons_self) List.not_mem_nil
    · exact once
  have room : (PositionTracker.fillSymbols [onlyEvent]).dedup.length ≤ maxSymbols := by
    decide +kernel
  have oneShare : onlyEvent.fillQty = 1 := by decide +kernel
  have total : PositionTracker.signedTotal (PositionTracker.fillsOf
      (StringView.ofList (ascii "AAPL")) [onlyEvent]) = 1 := by decide +kernel
  have net : (log.replay (PositionTracker.applyEvent .wrapping) PositionTracker.initial).netQty
      (StringView.ofList (ascii "AAPL")) = 2 := by
    have fields : ∀ event ∈ [onlyEvent], InRange 32 event.fillQty := by
      intro event member
      rw [List.mem_singleton.mp member, oneShare]
      decide
    rw [netQty_replay (Relays.of_run run).sound (by simp [twice]) room fields opened, twice]
    decide +kernel
  rw [whole, total] at close
  have bound := close 1 room
    (fun event member => by rw [List.mem_singleton.mp member, oneShare]; decide) (by decide)
  refine ⟨net, bound.trans ?_⟩
  rw [one_mul]
  exact_mod_cast few

end Feed

end Gateway

end Hft
