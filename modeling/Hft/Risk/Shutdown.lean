import Hft.Gateway.Flatten
import Hft.Gateway.CancelConfirmation
import Hft.Risk.Lifetimes
import Hft.Risk.PositionCross

/-!
# What the killswitch leaves behind

`flatten` is to be called once the confirmations of `cancel_all` have arrived, or after a timeout,
and after a timeout orders may still be open. Its own orders are for the positions it saw, so
whatever the open ones fill later stays in the book. The account is kept by `Book.reach` once more:
a fill of a closing order moves the net quantity and nothing else, since no slot of the order table
has its id, and a late fill moves the net quantity and the pending quantity of its side at once.
-/

namespace Hft

open Logical Relation

theorem PositionTracker.netOf_key {tracker : PositionTracker} {position : Position}
    (member : position ∈ tracker.slots) : tracker.netOf position.key = position.netQty := by
  unfold netOf
  rw [SlotTable.find?_eq_some_iff.mpr ⟨member, rfl⟩]

/-- An event for an id without a slot goes nowhere, unless it opens one. -/
theorem OrderManager.applyEvent_of_absent (arith : Arithmetic) {orders : OrderManager}
    {event : OrderEvent} (notNew : event.type ≠ .newOrder)
    (absent : orders.find? event.orderId.string = none) :
    orders.applyEvent arith event = orders := by
  rw [applyEvent_of_ne_newOrder arith orders notNew, SlotTable.update_of_absent _ absent]

namespace Gateway

/-! ## After trading has stopped -/

/-- What reaches the gateway when it sends no orders any more: reports on open orders,
confirmations of the requests of some `cancel_all` call, logons, logouts and marks. -/
inductive FIXGateway.Answered (arith : Arithmetic) (gateway : FIXGateway) : FIXGateway → Prop where
  | report {after : FIXGateway} (report : ExecutionReport) (now : Nat)
      (conforming : ConformingReport arith gateway.orders report)
      (returned : gateway.fromApp arith (.executionReport report) now = .returned after) :
      Answered arith gateway after
  | confirmed {after : FIXGateway} (orders : OrderManager) (request : OrderCancelRequest)
      (now : Nat) (asked : request ∈ Killswitch.requests orders (ascii "KS"))
      (returned : gateway.fromApp arith (.executionReport (confirm request)) now =
        .returned after) :
      Answered arith gateway after
  | onLogon : Answered arith gateway gateway.onLogon
  | onLogout : Answered arith gateway gateway.onLogout
  | markToMarket (sym : StringView) (mktPriceFp : Int) :
      Answered arith gateway
        { gateway with tracker := gateway.tracker.markToMarket arith sym mktPriceFp }

/-- A gateway whose closing orders are being filled, with the portions reported so far. -/
structure Closing where
  gateway : FIXGateway
  portions : List Portion

/-- One of these, or a fill of a closing order. Only an order that reached the session is filled,
and by no more than its quantity. -/
inductive Closing.Step (arith : Arithmetic) (attempts : List (Attempt NewOrderSingle))
    (closing : Closing) : Closing → Prop where
  | answered {after : FIXGateway} (answered : FIXGateway.Answered arith closing.gateway after) :
      Step arith attempts closing { closing with gateway := after }
  | close {after : FIXGateway} (portion : Portion) (now : Nat) (reported : portion.Reported)
      (delivered : ⟨portion.order, true⟩ ∈ attempts)
      (within : ((((closing.portions.filter fun earlier => earlier.order = portion.order).map
        Portion.shares).sum + portion.shares : Int) : ℚ) ≤ portion.order.orderQty)
      (returned : closing.gateway.fromApp arith (.executionReport portion.report) now =
        .returned after) :
      Step arith attempts closing ⟨after, closing.portions ++ [portion]⟩

/-- Shares filled of the closing orders on a symbol. -/
def closedOn (portions : List Portion) (symbol : List UInt8) : Int :=
  ((portions.filter fun portion => portion.order.symbol = symbol).map Portion.shares).sum

/-- The order table holds coherent orders under ids of the gateway's own making. -/
structure FIXGateway.Issued (gateway : FIXGateway) : Prop where
  coherent : ∀ order ∈ gateway.orders.slots, order.Coherent
  ids : ∀ orderId ∈ gateway.orders.keys, ∃ number, orderId = FIXGateway.orderKey number

/-- The first letter tells a killswitch's ids from the gateway's. -/
theorem FIXGateway.Issued.absent {gateway : FIXGateway} (issued : gateway.Issued) {letter : UInt8}
    (printed : letter ≠ 0) (other : (ascii "ORD").head? ≠ some letter) (rest : List UInt8) :
    gateway.orders.find? (text 8 (Pointer.ofList (letter :: rest))) = none := by
  rw [SlotTable.find?_eq_none_iff_keys]
  intro member
  obtain ⟨number, same⟩ := issued.ids _ member
  have first : (text 8 (Pointer.ofList (letter :: rest))).head? = some letter := by
    have start : Pointer.ofList (letter :: rest) 0 = letter := rfl
    simp [text, start, printed]
  rw [same, orderKey_eq] at first
  exact other first

/-- What a call keeps that trades nothing but open orders. -/
structure FIXGateway.Quiet (gateway after : FIXGateway) : Prop where
  issued : after.Issued
  held : gateway.tracker.keys ⊆ after.tracker.keys
  reach : ∀ side symbol,
    after.projections.reach side symbol ≤ gateway.projections.reach side symbol

namespace FIXGateway.Answered

variable {arith : Arithmetic} {gateway after : FIXGateway}

theorem quiet_refl (issued : gateway.Issued) : gateway.Quiet gateway :=
  ⟨issued, List.Subset.refl _, fun _ _ => le_rfl⟩

theorem quiet (answered : Answered arith gateway after) (issued : gateway.Issued)
    (small : ∀ symbol, |gateway.tracker.netOf symbol| < 2 ^ 62) : gateway.Quiet after := by
  cases answered with
  | report report now conforming returned =>
      obtain rfl | ⟨other, event, same, translated, booked⟩ := fromApp_cases returned
      · exact quiet_refl issued
      · cases same
        obtain ⟨log, _, _, rfl⟩ := book_eq_ok_iff.mp booked
        have notNew := MessageTranslator.type_ne_newOrder translated
        obtain ⟨coherent, shorter, _⟩ := @Book.reported arith gateway.projections event
          issued.coherent small (conforming.takes gateway.projections translated) notNew
        have sameIds := OrderManager.keys_applyEvent arith gateway.orders event
        rw [if_neg fun new => notNew new.1] at sameIds
        exact ⟨⟨coherent, fun orderId member => issued.ids orderId (sameIds ▸ member)⟩,
          (PositionTracker.projects arith).keys_subset_apply gateway.tracker event, shorter⟩
  | confirmed orders request now asked returned =>
      obtain rfl | ⟨other, event, same, translated, booked⟩ := fromApp_cases returned
      · exact quiet_refl issued
      · cases same
        rw [fromExecutionReport_confirm] at translated
        cases translated
        obtain ⟨log, _, _, rfl⟩ := book_eq_ok_iff.mp booked
        have named : request.clOrdId ∈ Killswitch.cancelIds (ascii "KS") orders.openOrderCount :=
          Killswitch.map_clOrdId_requests orders (ascii "KS") ▸ List.mem_map_of_mem asked
        obtain ⟨index, _, id⟩ := List.mem_map.mp named
        have absent :
            gateway.orders.find? (confirmedEvent arith request).orderId.string = none := by
          rw [orderId_confirmedEvent, ← id]
          exact issued.absent (by decide) (by decide) _
        have type := type_confirmedEvent arith request
        have tracker : gateway.tracker.applyEvent arith (confirmedEvent arith request) =
            gateway.tracker :=
          PositionTracker.applyEvent_of_not_fill arith _ (by simp [OrderEvent.isFill, type])
        have orders : gateway.orders.applyEvent arith (confirmedEvent arith request) =
            gateway.orders :=
          OrderManager.applyEvent_of_absent arith (by simp [type]) absent
        rw [tracker, orders]
        exact ⟨{ issued with }, List.Subset.refl _, fun _ _ => le_rfl⟩
  | onLogon => exact ⟨{ issued with }, List.Subset.refl _, fun _ _ => le_rfl⟩
  | onLogout => exact ⟨{ issued with }, List.Subset.refl _, fun _ _ => le_rfl⟩
  | markToMarket sym mktPriceFp =>
      refine ⟨{ issued with }, ?_, fun side symbol => ?_⟩
      · simp only [PositionTracker.markToMarket, SlotTable.keys_update]
        exact List.Subset.refl _
      · have agree := @PositionTracker.agree_markToMarket gateway.tracker gateway.tracker rfl arith
          sym mktPriceFp
        exact (@Book.reach_of_agree gateway.projections
          ⟨gateway.tracker.markToMarket arith sym mktPriceFp, gateway.orders⟩ agree rfl side
          symbol).ge

end FIXGateway.Answered

/-! ## Closing orders -/

/-- An attempt is the order against some position, under an id of `flatten`'s own making. -/
theorem Killswitch.exists_of_attempt {arith : Arithmetic} {tracker : PositionTracker}
    {idPrefix : List UInt8} {sessionFound : Nat → Bool} {attempt : Attempt NewOrderSingle}
    (member : attempt ∈ flatten arith tracker idPrefix sessionFound) :
    ∃ position ∈ tracker.slots, position.isFlat = false ∧
      ∃ number, attempt.message = flattenOrder arith position (idPrefix ++ toDecimal number) := by
  rw [flatten_eq_mapIdx] at member
  obtain ⟨index, below, rfl⟩ := List.mem_mapIdx.mp member
  obtain ⟨inTable, held⟩ := List.mem_filter.mp (List.getElem_mem below)
  exact ⟨_, inTable, by simpa using held, _, rfl⟩

/-- What is booked for a portion of the order against a position. -/
theorem Portion.Reported.translated {arith : Arithmetic} {portion : Portion}
    (reported : portion.Reported) {position : Position} {number : Nat}
    (held : position.isFlat = false) (small : |position.netQty| < 2147483648)
    (order : portion.order =
      Killswitch.flattenOrder arith position (ascii "FL" ++ toDecimal number))
    (part : portion.shares ≤ |position.netQty|) :
    ∃ event, MessageTranslator.fromExecutionReport arith portion.report = .ok (some event) ∧
      event.isFill = true ∧ event.symbol.string = position.key ∧
      event.side.sign = -position.netQty.sign ∧ event.fillQty = portion.shares ∧
      event.orderId.string = text 8 (Pointer.ofList (ascii "FL" ++ toDecimal number)) := by
  have positive := reported.positive
  obtain ⟨booked, isFill, symbol, side, fillQty⟩ :=
    reported.booked arith (inRange_32 (by omega) (by omega))
  have translated : MessageTranslator.fromExecutionReport arith portion.report =
      .ok (some (portion.fill arith)) := by
    unfold bookedEvent at booked
    split at booked
    · rename_i event same
      rw [same, booked]
    · cases booked
  refine ⟨portion.fill arith, translated, isFill, ?_, ?_, fillQty, ?_⟩
  · rw [symbol, order]
    exact text_ofList_text 8 _
  · have traded : position.netQty ≠ 0 := by simpa [Position.isFlat] using held
    rw [side, order, Killswitch.side_flattenOrder]
    by_cases long : 0 < position.netQty
    · simp [long, Int.sign_eq_one_of_pos long, Side.sign]
    · simp [long, Int.sign_eq_neg_one_of_neg (by omega : position.netQty < 0), Side.sign]
  · obtain ⟨_, _, _, clOrdId, _, _, _, _, hasId, _, same⟩ :=
      MessageTranslator.fromExecutionReport_eq_some_iff.mp translated
    have echoed := reported.echo.clOrdId
    rw [hasId] at echoed
    cases echoed
    have kept : (Killswitch.flattenOrder arith position (ascii "FL" ++ toDecimal number)).clOrdId =
        text 8 (Pointer.ofList (ascii "FL" ++ toDecimal number)) := by
      simp [Killswitch.flattenOrder, MessageTranslator.toNewOrderSingle]
    rw [same, MessageTranslator.orderId_reportedEvent, string_strncpy, order, kept,
      text_ofList_text]

/-- The orders of one call that name the same symbol are one order. -/
theorem Killswitch.eq_of_symbol_eq {arith : Arithmetic} {tracker : PositionTracker}
    {idPrefix : List UInt8} {sessionFound : Nat → Bool} {left right : NewOrderSingle}
    (leftMem : left ∈ (flatten arith tracker idPrefix sessionFound).map Attempt.message)
    (rightMem : right ∈ (flatten arith tracker idPrefix sessionFound).map Attempt.message)
    (same : left.symbol = right.symbol) : left = right := by
  have distinct := nodup_symbol_flatten arith tracker idPrefix sessionFound
  change (List.map (NewOrderSingle.symbol ∘ Attempt.message) _).Nodup at distinct
  rw [← List.map_map] at distinct
  exact List.inj_on_of_nodup_map distinct leftMem rightMem same

/-- Portions of a call's orders on a symbol are those of the one order on it. -/
theorem closedOn_eq {arith : Arithmetic} {tracker : PositionTracker} {idPrefix : List UInt8}
    {sessionFound : Nat → Bool} {portions : List Portion} {message : NewOrderSingle}
    (attempted : ∀ portion ∈ portions, portion.order ∈
      (Killswitch.flatten arith tracker idPrefix sessionFound).map Attempt.message)
    (member : message ∈
      (Killswitch.flatten arith tracker idPrefix sessionFound).map Attempt.message) :
    closedOn portions message.symbol =
      ((portions.filter fun portion => portion.order = message).map Portion.shares).sum := by
  unfold closedOn
  congr 2
  apply List.filter_congr
  intro portion inPortions
  rw [decide_eq_decide]
  exact ⟨Killswitch.eq_of_symbol_eq (attempted portion inPortions) member,
    congrArg NewOrderSingle.symbol⟩

theorem closedOn_append (portions : List Portion) (portion : Portion) (symbol : List UInt8) :
    closedOn (portions ++ [portion]) symbol =
      closedOn portions symbol + if portion.order.symbol = symbol then portion.shares else 0 := by
  unfold closedOn
  rw [List.filter_append, List.map_append, List.sum_append]
  by_cases hit : portion.order.symbol = symbol <;> simp [hit]

/-- What holds while the orders against the positions of `stopped` are being filled. -/
structure Closing.Winding (stopped : FIXGateway) (attempts : List (Attempt NewOrderSingle))
    (closing : Closing) : Prop where
  issued : closing.gateway.Issued
  held : stopped.tracker.keys ⊆ closing.gateway.tracker.keys
  attempted : ∀ portion ∈ closing.portions, portion.order ∈ attempts.map Attempt.message
  closed : ∀ symbol, 0 ≤ closedOn closing.portions symbol ∧
    closedOn closing.portions symbol ≤ |stopped.tracker.netOf symbol|
  reach : ∀ side symbol, closing.gateway.projections.reach side symbol ≤
    stopped.projections.reach side symbol -
      side.sign * (stopped.tracker.netOf symbol).sign * closedOn closing.portions symbol

theorem FIXGateway.Issued.abs_netOf_le {gateway : FIXGateway} (issued : gateway.Issued)
    {symbol : List UInt8} {bound : Int}
    (reach : ∀ side, gateway.projections.reach side symbol ≤ bound) :
    |gateway.tracker.netOf symbol| ≤ bound :=
  Side.abs_le_of_sides fun side =>
    (Book.sign_mul_netOf_le issued.coherent side symbol).trans (reach side)

/-- The orders of a table, and reaches that 512 orders of at most 10,000 can have. -/
structure FIXGateway.Stopped (gateway : FIXGateway) : Prop where
  issued : gateway.Issued
  reach : ∀ side symbol, gateway.projections.reach side symbol ≤ 10240000

namespace FIXGateway.Stopped

variable {arith : Arithmetic} {allowed : FIXGateway → SendArgs → Prop} {limits : RiskLimits}
  {gateway after : FIXGateway}

theorem abs_netOf_le (stopped : gateway.Stopped) (symbol : List UInt8) :
    |gateway.tracker.netOf symbol| ≤ 10240000 :=
  stopped.issued.abs_netOf_le fun side => stopped.reach side symbol

/-- Trading may stop anywhere in a conforming run. -/
theorem of_conformingRun (sized : limits.maxOrderQty ≤ 10000)
    (run : ConformingRun arith allowed limits gateway) : gateway.Stopped := by
  have balanced := (run.reachable sized).balanced
  have numbered := run.inSession.numbered (Produced.gapless .empty)
  refine ⟨⟨balanced.coherent, fun orderId member => ?_⟩, fun side symbol => ?_⟩
  · rw [numbered.keys] at member
    obtain ⟨number, _, same⟩ := List.mem_map.mp member
    exact ⟨number, same.symm⟩
  · have net := abs_le.mp (balanced.abs_netOf_le symbol)
    have pending : |gateway.projections.orders.totalOn symbol (Order.pendingOn side)| ≤
        10000 * maxOrders := by
      refine OrderManager.abs_totalOn_le symbol (by norm_num) fun order member => ?_
      obtain ⟨sound, small⟩ := balanced.coherent order member
      have filled := sound.filledNonneg
      rw [abs_of_nonneg (sound.pendingOn_nonneg side)]
      unfold Order.pendingOn
      split <;> omega
    have bounds := abs_le.mp pending
    simp only [maxOrders] at bounds
    unfold Book.reach
    obtain sign | sign := side.sign_eq <;> rw [sign] <;> omega

/-- It has stopped for good: what still comes in extends no reach. -/
theorem answered (stopped : gateway.Stopped)
    (answered : ReflTransGen (Answered arith) gateway after) : after.Stopped := by
  induction answered with
  | refl => exact stopped
  | tail _ taken ih =>
      have quiet := taken.quiet ih.issued fun symbol =>
        (ih.abs_netOf_le symbol).trans_lt (by norm_num)
      exact ⟨quiet.issued,
        fun side symbol => (quiet.reach side symbol).trans (ih.reach side symbol)⟩

end FIXGateway.Stopped

/-- What is held, seen from one side, with a part of it taken away. -/
theorem sign_mul_sub_le (side : Side) {held closed : Int} (nonneg : 0 ≤ closed)
    (part : closed ≤ |held|) :
    side.sign * held - side.sign * held.sign * closed ≤ max (side.sign * held) 0 ∧
      (closed = |held| → side.sign * held - side.sign * held.sign * closed = 0) := by
  obtain short | flat | long := lt_trichotomy held 0
  · rw [abs_of_neg short] at part ⊢
    rw [Int.sign_eq_neg_one_of_neg short]
    obtain sign | sign := side.sign_eq <;> rw [sign] <;> omega
  · have none : closed = 0 := by
      rw [flat] at part
      simp at part
      omega
    simp [flat, none]
  · rw [abs_of_pos long] at part ⊢
    rw [Int.sign_eq_one_of_pos long]
    obtain sign | sign := side.sign_eq <;> rw [sign] <;> omega

/-- A part of what is held moves a reach by no more than all of it. -/
theorem neg_abs_le_sign_mul (side : Side) {held closed : Int} (nonneg : 0 ≤ closed)
    (part : closed ≤ |held|) : -|held| ≤ side.sign * held.sign * closed := by
  have most := (sign_mul_sub_le side nonneg part).1
  have low := neg_abs_le held
  have high := le_abs_self held
  obtain sign | sign := side.sign_eq <;> rw [sign] at most ⊢ <;> omega

namespace Closing

variable {arith : Arithmetic} {stopped : FIXGateway} {attempts : List (Attempt NewOrderSingle)}
  {closing after : Closing}

theorem winding_start (issued : stopped.Issued) : Winding stopped attempts ⟨stopped, []⟩ where
  issued := issued
  held := List.Subset.refl _
  attempted _ member := absurd member List.not_mem_nil
  closed symbol := ⟨le_rfl, abs_nonneg _⟩
  reach side symbol := by simp [closedOn]

namespace Winding

theorem abs_netOf_le (winding : closing.Winding stopped attempts) (base : stopped.Stopped)
    (symbol : List UInt8) : |closing.gateway.tracker.netOf symbol| ≤ 20480000 := by
  refine winding.issued.abs_netOf_le fun side => (winding.reach side symbol).trans ?_
  obtain ⟨nonneg, part⟩ := winding.closed symbol
  have moved := neg_abs_le_sign_mul side nonneg part
  have held := base.abs_netOf_le symbol
  have reach := base.reach side symbol
  omega

theorem answered (winding : closing.Winding stopped attempts) (base : stopped.Stopped)
    {gateway : FIXGateway} (answered : FIXGateway.Answered arith closing.gateway gateway) :
    Winding stopped attempts { closing with gateway := gateway } := by
  have quiet := answered.quiet winding.issued fun symbol =>
    (winding.abs_netOf_le base symbol).trans_lt (by norm_num)
  exact ⟨quiet.issued, List.Subset.trans winding.held quiet.held, winding.attempted,
    winding.closed, fun side symbol => (quiet.reach side symbol).trans (winding.reach side symbol)⟩

/-- A fill of a closing order takes from a position what it adds to the shares closed. -/
theorem close {sessionFound : Nat → Bool} (winding : closing.Winding stopped
      (Killswitch.flatten arith stopped.tracker (ascii "FL") sessionFound))
    (base : stopped.Stopped) {portion : Portion} {now : Nat} (reported : portion.Reported)
    (member : portion.order ∈ (Killswitch.flatten arith stopped.tracker (ascii "FL")
      sessionFound).map Attempt.message)
    (within : ((((closing.portions.filter fun earlier => earlier.order = portion.order).map
      Portion.shares).sum + portion.shares : Int) : ℚ) ≤ portion.order.orderQty)
    {gateway : FIXGateway}
    (returned : closing.gateway.fromApp arith (.executionReport portion.report) now =
      .returned gateway) :
    Winding stopped (Killswitch.flatten arith stopped.tracker (ascii "FL") sessionFound)
      ⟨gateway, closing.portions ++ [portion]⟩ := by
  obtain ⟨attempt, inCall, sent⟩ := List.mem_map.mp member
  obtain ⟨position, inTable, held, number, order⟩ := Killswitch.exists_of_attempt inCall
  rw [sent] at order
  have symbol : portion.order.symbol = position.key := congrArg NewOrderSingle.symbol order
  have netOf := PositionTracker.netOf_key inTable
  have small := base.abs_netOf_le position.key
  rw [netOf] at small
  rw [← closedOn_eq winding.attempted member, symbol, order,
    Killswitch.orderQty_flattenOrder arith (by omega)] at within
  replace within : closedOn closing.portions position.key + portion.shares ≤ |position.netQty| := by
    exact_mod_cast within
  have earlier := (winding.closed position.key).1
  have positive := reported.positive
  obtain ⟨event, translated, isFill, onSymbol, sign, fillQty, id⟩ :=
    reported.translated held (by omega) order (by omega)
  obtain ⟨unbooked, _⟩ | ⟨other, same, booked⟩ := FIXGateway.onMessage_eq_returned_iff.mp returned
  · rw [translated] at unbooked
    cases unbooked
  rw [translated] at same
  cases same
  obtain ⟨log, _, _, rfl⟩ := FIXGateway.book_eq_ok_iff.mp booked
  -- The table of orders has no slot under this id.
  have absent : closing.gateway.orders.find? event.orderId.string = none := by
    rw [id]
    exact winding.issued.absent (by decide) (by decide) _
  have orders : closing.gateway.orders.applyEvent arith event = closing.gateway.orders :=
    OrderManager.applyEvent_of_absent arith (MessageTranslator.type_ne_newOrder translated) absent
  have present : closing.gateway.tracker.find? event.symbol.string ≠ none := by
    rw [onSymbol, Ne, SlotTable.find?_eq_none_iff_keys, not_not]
    exact winding.held (List.mem_map_of_mem inTable)
  have before := abs_le.mp (winding.abs_netOf_le base event.symbol.string)
  have net := PositionTracker.netOf_applyEvent arith isFill (fun none => absurd none present)
    (by
      rw [fillQty]
      obtain sign | sign := event.side.sign_eq <;> rw [sign] <;>
        exact inRange_64 (by omega) (by omega))
  rw [orders]
  refine ⟨{ winding.issued with }, ?_, ?_, fun other => ?_, fun side other => ?_⟩
  · exact List.Subset.trans winding.held
      ((PositionTracker.projects arith).keys_subset_apply closing.gateway.tracker event)
  · intro part inPortions
    obtain old | last := List.mem_append.mp inPortions
    · exact winding.attempted part old
    · rw [List.mem_singleton.mp last]
      exact member
  · have closed := winding.closed other
    rw [closedOn_append, symbol]
    split
    · rename_i hit
      rw [← hit, netOf]
      exact ⟨by omega, within⟩
    · simpa using closed
  · have reach := winding.reach side other
    unfold Book.reach at reach ⊢
    change side.sign * (closing.gateway.tracker.applyEvent arith event).netOf other +
      closing.gateway.orders.totalOn other (Order.pendingOn side) ≤ _
    change side.sign * closing.gateway.tracker.netOf other +
      closing.gateway.orders.totalOn other (Order.pendingOn side) ≤ _ at reach
    rw [net, closedOn_append, symbol, onSymbol, sign, fillQty]
    split
    · rename_i hit
      rw [← hit, netOf] at reach ⊢
      linarith
    · simpa using reach

theorem step {sessionFound : Nat → Bool} (winding : closing.Winding stopped
      (Killswitch.flatten arith stopped.tracker (ascii "FL") sessionFound))
    (base : stopped.Stopped)
    (taken : Step arith (Killswitch.flatten arith stopped.tracker (ascii "FL") sessionFound)
      closing after) :
    after.Winding stopped
      (Killswitch.flatten arith stopped.tracker (ascii "FL") sessionFound) := by
  cases taken with
  | answered answered => exact winding.answered base answered
  | close portion now reported delivered within returned =>
      exact winding.close base reported (List.mem_map_of_mem delivered) within returned

/-- Once its order is filled, all of a position has been closed. -/
theorem closedOn_of_filled {sessionFound : Nat → Bool} (winding : closing.Winding stopped
      (Killswitch.flatten arith stopped.tracker (ascii "FL") sessionFound))
    (base : stopped.Stopped)
    (filled : FilledInFull (Killswitch.flatten arith stopped.tracker (ascii "FL") sessionFound)
      closing.portions) (symbol : List UInt8) :
    closedOn closing.portions symbol = |stopped.tracker.netOf symbol| := by
  have closed := winding.closed symbol
  cases found : stopped.tracker.find? symbol with
  | none =>
      have none : stopped.tracker.netOf symbol = 0 := by
        unfold PositionTracker.netOf
        rw [found]
      rw [none, abs_zero] at closed ⊢
      omega
  | some position =>
      obtain ⟨inTable, rfl⟩ := SlotTable.find?_eq_some_iff.mp found
      have net := PositionTracker.netOf_key inTable
      have small := base.abs_netOf_le position.key
      rw [net] at small closed ⊢
      cases flat : position.isFlat with
      | true =>
          have none : position.netQty = 0 := by simpa [Position.isFlat] using flat
          rw [none, abs_zero] at closed ⊢
          omega
      | false =>
          obtain ⟨flatId, attempted⟩ :=
            Killswitch.exists_flattenOrder_mem arith (ascii "FL") sessionFound inTable flat
          have whole := filled.complete _ attempted
          rw [← closedOn_eq filled.attempted attempted,
            Killswitch.orderQty_flattenOrder arith (by omega)] at whole
          exact_mod_cast whole

end Winding

end Closing

open FIXGateway in
/-- What a late fill costs. Trading has stopped, and reports and confirmations come in before
`flatten` and while its orders are being filled. No position is ever further on a side than where
`flatten` found it, or flat, and the quantity that was open on that side; once the closing orders
are filled, it is no further from flat than that quantity. -/
theorem flatten_leaves_open_quantity {arith : Arithmetic}
    {allowed : FIXGateway → SendArgs → Prop} {limits : RiskLimits}
    {traded stopped : FIXGateway} {closing : Closing} (sized : limits.maxOrderQty ≤ 10000)
    (trading : ConformingRun arith allowed limits traded)
    (answered : ReflTransGen (Answered arith) traded stopped) (sessionFound : Nat → Bool)
    (run : ReflTransGen (Closing.Step arith
      (Killswitch.flatten arith stopped.tracker (ascii "FL") sessionFound)) ⟨stopped, []⟩ closing)
    (sym : StringView) (side : Side) :
    side.sign * closing.gateway.tracker.netQty sym ≤
        max (side.sign * stopped.tracker.netQty sym) 0 +
          stopped.orders.totalOn (fieldKey sym) (Order.pendingOn side) ∧
      (FilledInFull (Killswitch.flatten arith stopped.tracker (ascii "FL") sessionFound)
          closing.portions →
        side.sign * closing.gateway.tracker.netQty sym ≤
          stopped.orders.totalOn (fieldKey sym) (Order.pendingOn side)) := by
  have base : stopped.Stopped := (Stopped.of_conformingRun sized trading).answered answered
  have winding : closing.Winding stopped
      (Killswitch.flatten arith stopped.tracker (ascii "FL") sessionFound) := by
    induction run with
    | refl => exact Closing.winding_start base.issued
    | tail _ taken ih => exact ih.step base taken
  have pending : 0 ≤ closing.gateway.orders.totalOn (fieldKey sym) (Order.pendingOn side) :=
    OrderManager.totalOn_nonneg fun order member =>
      (winding.issued.coherent order member).sound.pendingOn_nonneg side
  have reach := winding.reach side (fieldKey sym)
  obtain ⟨nonneg, part⟩ := winding.closed (fieldKey sym)
  obtain ⟨most, all⟩ := sign_mul_sub_le side nonneg part
  unfold Book.reach at reach
  change side.sign * closing.gateway.tracker.netOf (fieldKey sym) +
    closing.gateway.orders.totalOn (fieldKey sym) (Order.pendingOn side) ≤
    side.sign * stopped.tracker.netOf (fieldKey sym) +
      stopped.orders.totalOn (fieldKey sym) (Order.pendingOn side) - _ at reach
  rw [PositionTracker.netQty_eq_netOf, PositionTracker.netQty_eq_netOf]
  refine ⟨by linarith, fun filled => ?_⟩
  have done := all (winding.closedOn_of_filled base filled (fieldKey sym))
  linarith

/-! ## A late fill -/

namespace FIXGateway

/-- A share is held and another one on order. -/
def onOrder : FIXGateway := longOne.sent .buy

/-- What `cancel_all` sends for the order. -/
def cancelRequest : OrderCancelRequest where
  origClOrdId := ascii "ORD1"
  clOrdId := ascii "KS1"
  symbol := ascii "AAPL"
  side := '1'

/-- The confirmation has been booked, under the id of the request. -/
def cancelled : FIXGateway := onOrder.delivered (confirm cancelRequest)

/-- What `flatten` sends against the share that is held, filled. -/
def soldOne : Portion := portionOf 1 {
  clOrdId := ascii "FL1"
  handlInst := '1'
  symbol := ascii "AAPL"
  side := '2'
  ordType := '1'
  orderQty := 1
  price := none
  timeInForce := '0' }

/-- The order had been filled before it could be cancelled. -/
def filledLate : FIXGateway := cancelled.delivered (tradedReport (ascii "ORD1") .buy 1)

end FIXGateway

open FIXGateway in
/-- Once the closing order is filled a share is left, which is what was still on order. -/
theorem flatten_leaves_open_quantity_late :
    (filledLate.delivered soldOne.report).tracker.netQty sampleArgs.symbol = 1 ∧
      Side.buy.sign * (filledLate.delivered soldOne.report).tracker.netQty sampleArgs.symbol ≤
        cancelled.orders.totalOn (fieldKey sampleArgs.symbol) (Order.pendingOn .buy) := by
  have trading : ConformingRun .wrapping (fun _ _ => True) {} onOrder :=
    (conformingRun_longOne trivial).tail
      (.send (oneShare .buy) 0 true (by decide) (by decide) (by decide +kernel) fun _ => trivial)
  have confirmed : Answered .wrapping onOrder cancelled :=
    .confirmed onOrder.orders cancelRequest 0 (by decide +kernel) rfl
  have sent : ∃ attempt ∈ Killswitch.flatten .wrapping cancelled.tracker (ascii "FL") fun _ => true,
      attempt.message = soldOne.order ∧ attempt.delivered = true := by decide +kernel
  have late : ConformingReport .wrapping cancelled.orders (tradedReport (ascii "ORD1") .buy 1) :=
    conformingReport_tradedReport (Option.eq_some_of_isSome (by decide +kernel)) (by decide +kernel)
  have filled : Answered .wrapping cancelled filledLate := .report _ 0 late rfl
  have reported : soldOne.Reported := ⟨.inl rfl, ⟨rfl, rfl, rfl⟩, rfl, ⟨_, rfl⟩, by decide⟩
  have run : ReflTransGen (Closing.Step .wrapping (Killswitch.flatten .wrapping cancelled.tracker
      (ascii "FL") fun _ => true)) ⟨cancelled, []⟩
      ⟨filledLate.delivered soldOne.report, [soldOne]⟩ := by
    obtain ⟨⟨message, delivered⟩, member, rfl, rfl⟩ := sent
    exact (ReflTransGen.single (.answered filled)).tail
      (.close soldOne 0 reported member (by decide +kernel) rfl)
  have whole : FilledInFull (Killswitch.flatten .wrapping cancelled.tracker (ascii "FL")
      fun _ => true) [soldOne] := by
    refine ⟨fun portion member => ?_, by decide +kernel, by decide +kernel⟩
    rw [List.mem_singleton.mp member]
    exact reported
  exact ⟨by decide +kernel, (flatten_leaves_open_quantity (by decide) trading (.single confirmed)
    (fun _ => true) run sampleArgs.symbol .buy).2 whole⟩

end Gateway

end Hft
