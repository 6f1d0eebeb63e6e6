import Hft.Gateway.CancelAll
import Hft.Gateway.Identity

/-!
# Request ids over a session

Three generators name the messages of a session: the gateway's counter for orders, and a
counter of each `cancel_all` and each `flatten` call that starts again at 1. The prefixes
keep the three apart and the gateway's counter never repeats, so whether all ids differ is
a question about pairs of calls of one kind: `sent_nodup_iff`.
-/

namespace Hft.Gateway

open Logical

/-- One `cancel_all` or `flatten` call: how many orders or positions it found to act on,
and at which of its sends the session was there. -/
structure Sweep where
  found : Nat
  sessionFound : Nat → Bool

namespace Sweep

/-- The visits, counted from 0, whose message reached the session. -/
def delivered (sweep : Sweep) : List Nat :=
  (List.range sweep.found).filter fun index => sweep.sessionFound (index + 1)

/-- No visit of the same number got its message through in both calls. -/
def Apart (left right : Sweep) : Prop :=
  ∀ index, index < left.found → index < right.found →
    ¬(left.sessionFound (index + 1) = true ∧ right.sessionFound (index + 1) = true)

theorem mem_delivered_iff {sweep : Sweep} {index : Nat} :
    index ∈ sweep.delivered ↔ index < sweep.found ∧ sweep.sessionFound (index + 1) = true := by
  simp [delivered]

theorem nodup_delivered (sweep : Sweep) : sweep.delivered.Nodup := List.nodup_range.filter _

/-- Names that tell the first visits apart repeat over many calls exactly when two calls
got a message through at the same visit. -/
theorem nodup_flatMap_iff {α : Type} {name : Nat → α} {bound : Nat} {sweeps : List Sweep}
    (injective : ∀ left < bound, ∀ right < bound, name left = name right → left = right)
    (bounded : ∀ sweep ∈ sweeps, sweep.found ≤ bound) :
    (sweeps.flatMap fun sweep => sweep.delivered.map name).Nodup ↔ sweeps.Pairwise Apart := by
  have small : ∀ sweep ∈ sweeps, ∀ index ∈ sweep.delivered, index < bound :=
    fun sweep member index visit =>
      (mem_delivered_iff.mp visit).1.trans_le (bounded sweep member)
  rw [List.nodup_flatMap]
  have own : ∀ sweep ∈ sweeps, (sweep.delivered.map name).Nodup := fun sweep member =>
    sweep.nodup_delivered.map_on fun left leftMem right rightMem =>
      injective left (small sweep member left leftMem) right (small sweep member right rightMem)
  rw [and_iff_right own]
  apply List.Pairwise.iff_of_mem
  intro left right leftMem rightMem
  constructor
  · intro disjoint index inLeft inRight ⟨throughLeft, throughRight⟩
    exact disjoint (List.mem_map_of_mem (mem_delivered_iff.mpr ⟨inLeft, throughLeft⟩))
      (List.mem_map_of_mem (mem_delivered_iff.mpr ⟨inRight, throughRight⟩))
  · intro apart id inLeft inRight
    obtain ⟨index, visit, rfl⟩ := List.mem_map.mp inLeft
    obtain ⟨twin, twinVisit, same⟩ := List.mem_map.mp inRight
    have equal := injective twin (small right rightMem twin twinVisit) index
      (small left leftMem index visit) same
    subst equal
    obtain ⟨foundLeft, throughLeft⟩ := mem_delivered_iff.mp visit
    obtain ⟨foundRight, throughRight⟩ := mem_delivered_iff.mp twinVisit
    exact apart twin foundLeft foundRight ⟨throughLeft, throughRight⟩

end Sweep

namespace Killswitch

/-- The id of a `cancel_all` visit under the default prefix. -/
def cancelName (index : Nat) : List UInt8 := ascii "KS" ++ toDecimal (index + 1)

/-- The id of a `flatten` visit under the default prefix, as its 8-byte field keeps it. -/
def flattenName (index : Nat) : List UInt8 :=
  (strncpy (Pointer.ofList (ascii "FL" ++ toDecimal (index + 1))) 8).string

/-- The ids of the attempts that reached the session. -/
def sentIds {Message : Type} (clOrdId : Message → List UInt8) (attempts : List (Attempt Message)) :
    List (List UInt8) :=
  (attempts.filter Attempt.delivered).map fun attempt => clOrdId attempt.message

theorem sentIds_cancelAll (orders : OrderManager) (sessionFound : Nat → Bool) :
    sentIds OrderCancelRequest.clOrdId (cancelAll orders (ascii "KS") sessionFound) =
      (Sweep.delivered ⟨orders.openOrderCount, sessionFound⟩).map cancelName := by
  rw [sentIds, cancelAll_eq_mapIdx]
  refine map_filter_mapIdx ?_ ?_ _ <;> exact fun _ _ => rfl

/-- What `flatten` finds to close. -/
def nonFlatCount (tracker : PositionTracker) : Nat :=
  (tracker.slots.filter fun position => !position.isFlat).length

theorem sentIds_flatten (arith : Arithmetic) (tracker : PositionTracker)
    (sessionFound : Nat → Bool) :
    sentIds NewOrderSingle.clOrdId (flatten arith tracker (ascii "FL") sessionFound) =
      (Sweep.delivered ⟨nonFlatCount tracker, sessionFound⟩).map flattenName := by
  rw [sentIds, flatten_eq_mapIdx]
  refine map_filter_mapIdx ?_ ?_ _ <;> exact fun _ _ => rfl

/-- The numbers of one `flatten` call fit behind the prefix. -/
theorem flattenName_eq {index : Nat} (few : index < maxSymbols) :
    flattenName index = ascii "FL" ++ toDecimal (index + 1) := by
  have clean : ∀ byte ∈ ascii "FL" ++ toDecimal (index + 1), byte ≠ 0 := by
    intro byte member
    obtain letter | digit := List.mem_append.mp member
    · have letters : ∀ byte ∈ ascii "FL", byte ≠ 0 := by decide +kernel
      exact letters byte letter
    · exact toDecimal_ne_zero digit
  have digits : (toDecimal (index + 1)).length ≤ 6 :=
    (length_toDecimal_le_iff (by decide)).mpr (by simp only [maxSymbols] at few; omega)
  have two : (ascii "FL").length = 2 := by decide
  rw [flattenName, string_strncpy, text_ofList clean, List.take_of_length_le]
  rw [List.length_append, two]
  omega

theorem flattenName_injective :
    ∀ left < maxSymbols, ∀ right < maxSymbols, flattenName left = flattenName right →
      left = right := by
  intro left leftFew right rightFew same
  rw [flattenName_eq leftFew, flattenName_eq rightFew] at same
  exact numbered_injective (ascii "FL") same

end Killswitch

/-- A process with the ids of the messages that reached its session, and the calls that
produced them. -/
structure History where
  gateway : FIXGateway
  sends : Nat
  sent : List (List UInt8)
  cancels : List Sweep
  flattens : List Sweep

namespace History

/-- A process that has just started on a log. -/
def start (arith : Arithmetic) (limits : RiskLimits) (log : EventLog) : History :=
  ⟨FIXGateway.start arith limits log, 0, [], [], []⟩

/-- The id of the order that a `send_order` call got through to the session. -/
def orderSent (outcome : FIXGateway.SendOutcome) (sessionFound : Bool) : List (List UInt8) :=
  if sessionFound then outcome.handed.toList.map NewOrderSingle.clOrdId else []

/-- One call. `emergency_cancel_all` and `execute` are `cancelAll`; all of them use their
default prefix. -/
inductive Step (arith : Arithmetic) (history : History) : History → Prop where
  | sendOrder (args : FIXGateway.SendArgs) (now : Nat) (sessionFound : Bool) :
      Step arith history { history with
        gateway := (history.gateway.sendOrder arith args now sessionFound).gateway
        sends := history.sends + 1
        sent := history.sent ++
          orderSent (history.gateway.sendOrder arith args now sessionFound) sessionFound }
  | cancelAll (sessionFound : Nat → Bool) :
      Step arith history { history with
        sent := history.sent ++ Killswitch.sentIds OrderCancelRequest.clOrdId
          (Killswitch.cancelAll history.gateway.orders (ascii "KS") sessionFound)
        cancels := history.cancels ++ [⟨history.gateway.orders.openOrderCount, sessionFound⟩] }
  | flatten (sessionFound : Nat → Bool) :
      Step arith history { history with
        sent := history.sent ++ Killswitch.sentIds NewOrderSingle.clOrdId
          (Killswitch.flatten arith history.gateway.tracker (ascii "FL") sessionFound)
        flattens := history.flattens ++
          [⟨Killswitch.nonFlatCount history.gateway.tracker, sessionFound⟩] }
  | fromApp {after : FIXGateway} (message : FIXGateway.InboundMessage) (now : Nat)
      (returned : history.gateway.fromApp arith message now = .returned after) :
      Step arith history { history with gateway := after }
  | onLogon : Step arith history { history with gateway := history.gateway.onLogon }
  | onLogout : Step arith history { history with gateway := history.gateway.onLogout }
  | markToMarket (sym : StringView) (mktPriceFp : Int) :
      Step arith history { history with
        gateway := { history.gateway with
          tracker := history.gateway.tracker.markToMarket arith sym mktPriceFp } }

/-- The histories of a session started on `log`. -/
def InSession (arith : Arithmetic) (limits : RiskLimits) (log : EventLog) (history : History) :
    Prop :=
  Relation.ReflTransGen (Step arith) (start arith limits log) history

/-- The ids of the orders with the given numbers and of everything the killswitch sent. -/
def ids (history : History) (numbers : List Nat) : List (List UInt8) :=
  numbers.map FIXGateway.orderKey ++
    (history.cancels.flatMap (fun sweep => sweep.delivered.map Killswitch.cancelName) ++
      history.flattens.flatMap fun sweep => sweep.delivered.map Killswitch.flattenName)

/-- Where the sent ids come from: from different order numbers below the counter, from the
`cancel_all` calls and from the `flatten` calls. -/
structure Issued (history : History) : Prop where
  sent : ∃ numbers : List Nat, numbers.Nodup ∧
    (∀ number ∈ numbers, number < history.gateway.orderCounter) ∧
    history.sent.Perm (history.ids numbers)
  counter : history.gateway.orderCounter ≤ history.sends
  cancels : ∀ sweep ∈ history.cancels, sweep.found ≤ maxSymbols
  flattens : ∀ sweep ∈ history.flattens, sweep.found ≤ maxSymbols

variable {arith : Arithmetic} {history after : History}

theorem issued_start (arith : Arithmetic) (limits : RiskLimits) (log : EventLog) :
    (start arith limits log).Issued where
  sent := ⟨[], List.nodup_nil, fun _ member => absurd member List.not_mem_nil, .refl _⟩
  counter := Nat.le_refl 0
  cancels _ member := absurd member List.not_mem_nil
  flattens _ member := absurd member List.not_mem_nil

/-- A call that sends nothing and leaves the counter alone. -/
theorem Issued.of_silent (issued : history.Issued) {gateway : FIXGateway}
    (same : gateway.orderCounter = history.gateway.orderCounter) :
    Issued { history with gateway := gateway } := by
  refine ⟨?_, ?_, issued.cancels, issued.flattens⟩
  · rw [same]
    exact issued.sent
  · rw [same]
    exact issued.counter

/-- What is sent next joins the ids of the generator it comes from. -/
theorem perm_append_parts {α : Type} [DecidableEq α] {sent first second third : List α}
    (perm : sent.Perm (first ++ (second ++ third))) (next : List α) :
    (sent ++ next).Perm (first ++ next ++ (second ++ third)) ∧
      (sent ++ next).Perm (first ++ (second ++ next ++ third)) ∧
      (sent ++ next).Perm (first ++ (second ++ (third ++ next))) := by
  simp only [List.perm_iff_count, List.count_append] at perm ⊢
  refine ⟨fun id => ?_, fun id => ?_, fun id => ?_⟩ <;>
    have counted := perm id <;> omega

/-- A `send_order` call that sends nothing uses up a number at most. -/
theorem Issued.of_nothing_sent (issued : history.Issued) {gateway : FIXGateway}
    (grown : history.gateway.orderCounter ≤ gateway.orderCounter)
    (bounded : gateway.orderCounter ≤ history.gateway.orderCounter + 1) :
    Issued { history with
      gateway := gateway
      sends := history.sends + 1
      sent := history.sent ++ [] } := by
  obtain ⟨numbers, nodup, below, perm⟩ := issued.sent
  refine ⟨⟨numbers, nodup, fun number member => (below number member).trans_le grown, ?_⟩,
    bounded.trans (Nat.succ_le_succ issued.counter), issued.cancels, issued.flattens⟩
  rw [List.append_nil]
  exact perm

/-- A `send_order` call that gets its order through uses up the order's number. -/
theorem Issued.of_order_sent (issued : history.Issued) {gateway : FIXGateway}
    (next : gateway.orderCounter = history.gateway.orderCounter + 1) :
    Issued { history with
      gateway := gateway
      sends := history.sends + 1
      sent := history.sent ++ [FIXGateway.orderKey history.gateway.orderCounter] } := by
  obtain ⟨numbers, nodup, below, perm⟩ := issued.sent
  refine ⟨⟨numbers ++ [history.gateway.orderCounter], ?_, ?_, ?_⟩,
    next.trans_le (Nat.succ_le_succ issued.counter), issued.cancels, issued.flattens⟩
  · refine List.nodup_append.mpr ⟨nodup, List.nodup_singleton _, ?_⟩
    intro number member other last
    have := below number member
    rw [List.mem_singleton.mp last]
    omega
  · intro number member
    rw [next]
    obtain earlier | last := List.mem_append.mp member
    · have := below number earlier
      omega
    · rw [List.mem_singleton.mp last]
      omega
  · rw [ids, List.map_append]
    exact (perm_append_parts perm _).1

/-- A `send_order` call uses up a number at most, and sends at most the order of that
number. -/
theorem Issued.sendOrder (issued : history.Issued) (few : history.sends < maxOrders)
    (args : FIXGateway.SendArgs) (now : Nat) (sessionFound : Bool) :
    Issued { history with
      gateway := (history.gateway.sendOrder arith args now sessionFound).gateway
      sends := history.sends + 1
      sent := history.sent ++
        orderSent (history.gateway.sendOrder arith args now sessionFound) sessionFound } := by
  have counter := issued.counter
  simp only [maxOrders] at few
  have bumped : history.gateway.nextOrderId.2.orderCounter = history.gateway.orderCounter + 1 :=
    Nat.mod_eq_of_lt (by omega)
  obtain ⟨_, same⟩ | ⟨_, _, same⟩ | ⟨log, _, _, _, same⟩ :=
    FIXGateway.sendOrder_cases arith history.gateway args now sessionFound
  · have nothing : orderSent ⟨history.gateway, none, .ok []⟩ sessionFound = [] := by
      cases sessionFound <;> rfl
    rw [same, nothing]
    exact issued.of_nothing_sent (Nat.le_refl _) (Nat.le_succ _)
  · have nothing : orderSent ⟨history.gateway.nextOrderId.2, none,
        .error (.overflowError "EventLog full")⟩ sessionFound = [] := by
      cases sessionFound <;> rfl
    rw [same, nothing]
    exact issued.of_nothing_sent ((Nat.le_succ _).trans_eq bumped.symm) bumped.le
  · rw [same]
    cases sessionFound with
    | false => exact issued.of_nothing_sent ((Nat.le_succ _).trans_eq bumped.symm) bumped.le
    | true =>
        have named : orderSent ⟨history.gateway.nextOrderId.2,
            some (MessageTranslator.toNewOrderSingle (history.gateway.newOrderEvent args)),
            .ok []⟩ true =
            [FIXGateway.orderKey history.gateway.orderCounter] :=
          congrArg (fun id => [id]) (FIXGateway.orderId_newOrderEvent history.gateway args)
        exact named ▸ issued.of_order_sent bumped

/-- Every call accounts for the ids it sends. -/
theorem Step.issued (step : Step arith history after) (few : after.sends ≤ maxOrders)
    (issued : history.Issued) : after.Issued := by
  obtain ⟨numbers, nodup, below, perm⟩ := issued.sent
  cases step with
  | sendOrder args now sessionFound => exact issued.sendOrder few args now sessionFound
  | cancelAll sessionFound =>
      refine ⟨⟨numbers, nodup, below, ?_⟩, issued.counter, ?_, issued.flattens⟩
      · rw [Killswitch.sentIds_cancelAll, ids, List.flatMap_append, List.flatMap_singleton]
        exact (perm_append_parts perm _).2.1
      · intro sweep member
        obtain earlier | last := List.mem_append.mp member
        · exact issued.cancels sweep earlier
        · rw [List.mem_singleton.mp last]
          exact (List.length_filter_le _ _).trans
            (history.gateway.orders.bounded.trans (by decide))
  | flatten sessionFound =>
      refine ⟨⟨numbers, nodup, below, ?_⟩, issued.counter, issued.cancels, ?_⟩
      · rw [Killswitch.sentIds_flatten, ids, List.flatMap_append, List.flatMap_singleton]
        exact (perm_append_parts perm _).2.2
      · intro sweep member
        obtain earlier | last := List.mem_append.mp member
        · exact issued.flattens sweep earlier
        · rw [List.mem_singleton.mp last]
          exact (List.length_filter_le _ _).trans history.gateway.tracker.bounded
  | fromApp message now returned =>
      refine issued.of_silent ?_
      obtain rfl | ⟨_, _, _, _, booked⟩ := FIXGateway.fromApp_cases returned
      · rfl
      · obtain ⟨_, _, _, rfl⟩ := FIXGateway.book_eq_ok_iff.mp booked
        rfl
  | onLogon => exact issued.of_silent rfl
  | onLogout => exact issued.of_silent rfl
  | markToMarket => exact issued.of_silent rfl

theorem Step.sends_le (step : Step arith history after) : history.sends ≤ after.sends := by
  cases step with
  | sendOrder args now sessionFound => exact Nat.le_succ _
  | cancelAll sessionFound => exact Nat.le_refl _
  | flatten sessionFound => exact Nat.le_refl _
  | fromApp message now returned => exact Nat.le_refl _
  | onLogon => exact Nat.le_refl _
  | onLogout => exact Nat.le_refl _
  | markToMarket sym mktPriceFp => exact Nat.le_refl _

theorem InSession.issued {limits : RiskLimits} {log : EventLog}
    (run : InSession arith limits log history) (few : history.sends ≤ maxOrders) :
    history.Issued := by
  induction run with
  | refl => exact issued_start arith limits log
  | tail _ step ih => exact step.issued few (ih (step.sends_le.trans few))

/-- The first letter of an id tells which generator made it. -/
theorem Issued.nodup_ids_iff (issued : history.Issued) (few : history.sends ≤ maxOrders)
    {numbers : List Nat} (nodup : numbers.Nodup)
    (below : ∀ number ∈ numbers, number < history.gateway.orderCounter) :
    (history.ids numbers).Nodup ↔
      history.cancels.Pairwise Sweep.Apart ∧ history.flattens.Pairwise Sweep.Apart := by
  have counter := issued.counter
  simp only [maxOrders] at few
  have orders : (numbers.map FIXGateway.orderKey).Nodup := by
    refine nodup.map_on fun left leftMem right _ same => ?_
    have := below left leftMem
    exact (FIXGateway.orderKey_eq_iff (by omega)).mp same
  have orderLetter : ∀ id ∈ numbers.map FIXGateway.orderKey, id.head? = some 79 := by
    intro id member
    obtain ⟨number, _, rfl⟩ := List.mem_map.mp member
    rw [FIXGateway.orderKey_eq]
    rfl
  have cancelLetter : ∀ id ∈ history.cancels.flatMap
      (fun sweep => sweep.delivered.map Killswitch.cancelName), id.head? = some 75 := by
    intro id member
    obtain ⟨sweep, _, visit⟩ := List.mem_flatMap.mp member
    obtain ⟨index, _, rfl⟩ := List.mem_map.mp visit
    rfl
  have flattenLetter : ∀ id ∈ history.flattens.flatMap
      (fun sweep => sweep.delivered.map Killswitch.flattenName), id.head? = some 70 := by
    intro id member
    obtain ⟨sweep, inFlattens, visit⟩ := List.mem_flatMap.mp member
    obtain ⟨index, delivered, rfl⟩ := List.mem_map.mp visit
    have small := (Sweep.mem_delivered_iff.mp delivered).1.trans_le
      (issued.flattens sweep inFlattens)
    rw [Killswitch.flattenName_eq small]
    rfl
  have meets : ∀ {left right : List UInt8} {letter other : UInt8}, left.head? = some letter →
      right.head? = some other → letter ≠ other → left ≠ right := by
    rintro left right letter other leftHead rightHead differs rfl
    exact differs (Option.some.inj (leftHead.symm.trans rightHead))
  have cancels := Sweep.nodup_flatMap_iff
    (fun left _ right _ same => Killswitch.numbered_injective (ascii "KS") same) issued.cancels
  have flattens := Sweep.nodup_flatMap_iff Killswitch.flattenName_injective issued.flattens
  rw [ids, List.nodup_append, List.nodup_append]
  constructor
  · rintro ⟨_, ⟨cancelNodup, flattenNodup, _⟩, _⟩
    exact ⟨cancels.mp cancelNodup, flattens.mp flattenNodup⟩
  · rintro ⟨cancelApart, flattenApart⟩
    refine ⟨orders, ⟨cancels.mpr cancelApart, flattens.mpr flattenApart, ?_⟩, ?_⟩
    · intro id inCancels other inFlattens
      exact meets (cancelLetter id inCancels) (flattenLetter other inFlattens) (by decide)
    · intro id inOrders other inSweeps
      obtain inCancels | inFlattens := List.mem_append.mp inSweeps
      · exact meets (orderLetter id inOrders) (cancelLetter other inCancels) (by decide)
      · exact meets (orderLetter id inOrders) (flattenLetter other inFlattens) (by decide)

/-- The ids of all messages that reached the session differ exactly when no two `cancel_all`
calls got a request through at the same visit, and no two `flatten` calls an order. -/
theorem sent_nodup_iff {limits : RiskLimits} {log : EventLog}
    (run : InSession arith limits log history) (few : history.sends < maxOrders) :
    history.sent.Nodup ↔
      history.cancels.Pairwise Sweep.Apart ∧ history.flattens.Pairwise Sweep.Apart := by
  have issued := run.issued few.le
  obtain ⟨numbers, nodup, below, perm⟩ := issued.sent
  rw [perm.nodup_iff]
  exact issued.nodup_ids_iff few.le nodup below

/-! ## Two emergencies -/

/-- One order on its way. -/
def oneSent : History where
  gateway := (FIXGateway.connectedGateway.sendOrder .wrapping FIXGateway.sampleArgs 0 true).gateway
  sends := 1
  sent := [ascii "ORD0"]
  cancels := []
  flattens := []

theorem inSession_oneSent : InSession .wrapping {} EventLog.empty oneSent := by
  have connected : InSession .wrapping {} EventLog.empty
      { start .wrapping {} EventLog.empty with gateway := FIXGateway.connectedGateway } :=
    .single .onLogon
  exact connected.tail (.sendOrder FIXGateway.sampleArgs 0 true)

/-- The history after one more `cancel_all`, with the session up. -/
def cancelled (history : History) : History :=
  { history with
    sent := history.sent ++ Killswitch.sentIds OrderCancelRequest.clOrdId
      (Killswitch.cancelAll history.gateway.orders (ascii "KS") fun _ => true)
    cancels := history.cancels ++ [⟨history.gateway.orders.openOrderCount, fun _ => true⟩] }

/-- A single call repeats nothing. -/
theorem sent_nodup_once : oneSent.cancelled.sent.Nodup :=
  (sent_nodup_iff (inSession_oneSent.tail (.cancelAll fun _ => true)) (by decide)).mpr
    ⟨List.pairwise_singleton _ _, .nil⟩

/-- A second call before the first is confirmed sends `KS1` again. -/
theorem second_cancel_all_repeats :
    ¬∀ (limits : RiskLimits) (history : History),
      InSession .wrapping limits EventLog.empty history → history.sends < maxOrders →
      history.sent.Nodup := by
  intro always
  have once := inSession_oneSent.tail (.cancelAll fun _ => true)
  have nodup := always {} oneSent.cancelled.cancelled (once.tail (.cancelAll fun _ => true))
    (by decide)
  have repeated : ¬oneSent.cancelled.cancelled.sent.Nodup := by decide +kernel
  exact repeated nodup

end History

end Hft.Gateway
