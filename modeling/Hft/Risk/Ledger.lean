import Hft.RiskChecker
import Mathlib.Algebra.Order.BigOperators.Group.List
import Mathlib.Logic.Relation

/-!
# The true-exposure ledger

The tracker and the order manager are maintained independently, yet the risk check
adds one figure of each. This module carries the account that ties them together
through every mix of new orders, partial fills, cancels and rejects. Every figure
in it is a `totalOn`: a sum over all orders on one symbol, so one pair of lemmas
(`totalOn_newOrder`, `totalOn_rewrite`) says how each of them moves.
-/

namespace Hft

open Logical

/-- The two projections that consume the event stream. -/
structure Book where
  tracker : PositionTracker
  orders : OrderManager

/-- The net quantity kept for a symbol key, 0 when it has no slot. -/
def PositionTracker.netOf (tracker : PositionTracker) (symbol : List UInt8) : Int :=
  match tracker.find? symbol with
  | some position => position.netQty
  | none => 0

theorem PositionTracker.netQty_eq_netOf (tracker : PositionTracker) (sym : StringView) :
    tracker.netQty sym = tracker.netOf (fieldKey sym) := by
  have searched := get_eq_find? tracker sym
  unfold netQty netOf
  cases found : tracker.find? (fieldKey sym) with
  | none => simp only [searched, found]
  | some position => simp only [searched, found]

/-- The sum of a figure over all orders on one symbol. -/
def OrderManager.totalOn (orders : OrderManager) (symbol : List UInt8) (figure : Order → Int) :
    Int :=
  (orders.slots.map fun order => if order.symbol.string = symbol then figure order else 0).sum

namespace Order

/-- Signed quantity already filled. -/
def filledSigned (order : Order) : Int := order.side.sign * order.filledQty

/-- Signed quantity still working at the exchange. -/
def pendingSigned (order : Order) : Int :=
  if order.isOpen then order.side.sign * (order.originalQty - order.filledQty) else 0

/-- The share of the symbol's exposure that an order accounts for: what it filled
once it is dead, everything it asked for until then. -/
def commitment (order : Order) : Int :=
  order.side.sign *
    if order.state = .cancelled ∨ order.state = .rejected then order.filledQty
    else order.originalQty

/-- The quantities of an order that was filled as an exchange would. -/
structure Sound (order : Order) : Prop where
  qtyPositive : 0 < order.originalQty
  qtyFits : order.originalQty < 2 ^ 31
  filledNonneg : 0 ≤ order.filledQty
  filledLe : order.filledQty ≤ order.originalQty
  openRemains : order.isOpen → order.filledQty < order.originalQty
  filledDone : order.state = .filled → order.filledQty = order.originalQty

/-- A sound order of at most 10,000. -/
structure Coherent (order : Order) : Prop where
  sound : order.Sound
  qtyBounded : order.originalQty ≤ 10000

namespace Sound

variable {order : Order}

theorem remainingQty_eq (sound : order.Sound) (arith : Arithmetic) :
    order.remainingQty arith = order.originalQty - order.filledQty := by
  apply arith.int32_exact
  have := sound.filledNonneg
  have := sound.filledLe
  have := sound.qtyFits
  exact inRange_32 (by omega) (by omega)

/-- Committed and filled quantity differ by what is still pending. -/
theorem commitment_eq (sound : order.Sound) :
    order.commitment = order.filledSigned + order.pendingSigned := by
  unfold commitment filledSigned pendingSigned isOpen
  cases state : order.state with
  | pending => simp; ring
  | partiallyFilled => simp; ring
  | filled => simp [sound.filledDone state]
  | cancelled => simp
  | rejected => simp

theorem abs_pendingSigned_le (sound : order.Sound) :
    |order.pendingSigned| ≤ order.originalQty := by
  have := sound.filledNonneg
  have := sound.filledLe
  unfold pendingSigned Side.sign
  rw [abs_le]
  split_ifs <;> omega

theorem abs_filledSigned_le (sound : order.Sound) :
    |order.filledSigned| ≤ order.originalQty := by
  have := sound.filledNonneg
  have := sound.filledLe
  unfold filledSigned Side.sign
  rw [abs_le]
  split_ifs <;> omega

theorem abs_commitment_le (sound : order.Sound) : |order.commitment| ≤ order.originalQty := by
  have := sound.filledNonneg
  have := sound.filledLe
  unfold commitment Side.sign
  rw [abs_le]
  split_ifs <;> omega

/-- What a conforming fill does to the slot it hits. -/
theorem fill_fields (sound : order.Sound) (arith : Arithmetic) {event : OrderEvent}
    (positive : 0 < event.fillQty) (fits : event.fillQty ≤ order.remainingQty arith) :
    (order.fill arith event).filledQty = order.filledQty + event.fillQty ∧
      (order.fill arith event).state =
        if order.originalQty ≤ order.filledQty + event.fillQty then .filled
        else .partiallyFilled := by
  rw [sound.remainingQty_eq] at fits
  exact fill_of_le arith sound.filledNonneg positive (by omega) sound.qtyFits

theorem fill (sound : order.Sound) (arith : Arithmetic) {event : OrderEvent}
    (positive : 0 < event.fillQty) (fits : event.fillQty ≤ order.remainingQty arith) :
    (order.fill arith event).Sound := by
  obtain ⟨filledEq, stateEq⟩ := sound.fill_fields arith positive fits
  rw [sound.remainingQty_eq] at fits
  have nonneg := sound.filledNonneg
  have qty : (order.fill arith event).originalQty = order.originalQty := rfl
  refine ⟨sound.qtyPositive, sound.qtyFits, ?_, ?_, ?_, ?_⟩
  · rw [filledEq]
    omega
  · rw [filledEq, qty]
    omega
  · intro isOpen
    rw [filledEq, qty]
    by_contra full
    simp [Order.isOpen, stateEq, not_lt.mp full] at isOpen
  · intro done
    rw [filledEq, qty]
    rw [stateEq] at done
    split at done
    · omega
    · cases done

end Sound

theorem sound_opened (orderId : CharArray 8) {event : OrderEvent} (positive : 0 < event.qty)
    (fits : event.qty < 2 ^ 31) : (opened orderId event).Sound where
  qtyPositive := positive
  qtyFits := fits
  filledNonneg := le_refl _
  filledLe := le_of_lt positive
  openRemains _ := positive
  filledDone closed := by cases closed

/-- What a cancel and a reject have in common: a terminal state, and nothing else that any
total looks at. -/
def ended (state : OrderState) (event : OrderEvent) (order : Order) : Order :=
  { order with state := state, lastSeq := event.sequence }

theorem key_ended (state : OrderState) (event : OrderEvent) (order : Order) :
    (order.ended state event).key = order.key := rfl

theorem Sound.ended {order : Order} (sound : order.Sound) {state : OrderState}
    (dead : state = .cancelled ∨ state = .rejected) (event : OrderEvent) :
    (order.ended state event).Sound := by
  refine ⟨sound.qtyPositive, sound.qtyFits, sound.filledNonneg, sound.filledLe,
    fun isOpen => ?_, fun done => ?_⟩
  · obtain rfl | rfl := dead <;> cases isOpen
  · obtain rfl | rfl := dead <;> cases done

end Order

/-! ## Totals over the orders of one symbol -/

namespace OrderManager

/-- A new id adds its own slot to every total on its symbol. -/
theorem totalOn_newOrder {orders : OrderManager} {event : OrderEvent}
    (isNew : orders.find? event.orderId.string = none) (room : orders.orderCount < maxOrders)
    (symbol : List UInt8) (figure : Order → Int) :
    (orders.handleNew event).totalOn symbol figure =
      orders.totalOn symbol figure +
        if event.symbol.string = symbol then
          figure (Order.opened (strncpy event.orderIdView.data 8) event) else 0 := by
  have created := slots_handleNew isNew room
  have onSymbol : (Order.opened (strncpy event.orderIdView.data 8) event).symbol.string =
      event.symbol.string := by simp [Order.opened]
  simp [totalOn, created, onSymbol]

/-- A rewrite that keeps the symbol moves a total by the change in its own slot. -/
theorem totalOn_update {orders : OrderManager} {wanted : List UInt8} {order : Order}
    {write : Order → Order} (keeps : ∀ slot, (write slot).key = slot.key)
    (sameSymbol : (write order).symbol = order.symbol)
    (found : orders.find? wanted = some order) (symbol : List UInt8) (figure : Order → Int) :
    totalOn (orders.update wanted write keeps) symbol figure =
      orders.totalOn symbol figure +
        if order.symbol.string = symbol then figure (write order) - figure order else 0 := by
  unfold totalOn
  rw [SlotTable.sum_update keeps _ found, sameSymbol]
  split <;> ring

/-- A figure bounded on every order has a total bounded by the table's size. -/
theorem abs_totalOn_le {orders : OrderManager} (symbol : List UInt8) {figure : Order → Int}
    {bound : Int} (nonneg : 0 ≤ bound) (bounded : ∀ order ∈ orders.slots, |figure order| ≤ bound) :
    |orders.totalOn symbol figure| ≤ bound * maxOrders := by
  have scanned : ∀ slots : List Order, (∀ order ∈ slots, |figure order| ≤ bound) →
      |(slots.map fun order => if order.symbol.string = symbol then figure order else 0).sum| ≤
        bound * slots.length := by
    intro slots
    induction slots with
    | nil => simp
    | cons order rest ih =>
        intro bounded
        have tail := ih fun other member => bounded other (List.mem_cons_of_mem _ member)
        have head : |if order.symbol.string = symbol then figure order else 0| ≤ bound := by
          split
          · exact bounded order List.mem_cons_self
          · simpa using nonneg
        simp only [List.map_cons, List.sum_cons, List.length_cons]
        push_cast
        calc |_ + _| ≤ |if order.symbol.string = symbol then figure order else 0| +
              |(rest.map fun order =>
                if order.symbol.string = symbol then figure order else 0).sum| := abs_add_le _ _
          _ ≤ bound + bound * rest.length := add_le_add head tail
          _ = bound * (rest.length + 1) := by ring
  have few : (orders.slots.length : Int) ≤ maxOrders := Int.ofNat_le.mpr orders.bounded
  exact (scanned orders.slots bounded).trans (mul_le_mul_of_nonneg_left few nonneg)

/-- One step of the `open_exposure` scan adds the order's pending quantity, if the sum is
within 32 bits. -/
theorem addExposure_eq (arith : Arithmetic) {order : Order} (sound : order.Sound)
    (sym : StringView) {exposure : Int}
    (small : |exposure| +
      |if order.symbol.string = fieldKey sym then order.pendingSigned else 0| < 2 ^ 31) :
    addExposure arith sym exposure order = exposure +
      if order.symbol.string = fieldKey sym then order.pendingSigned else 0 := by
  have remaining := sound.remainingQty_eq arith
  have nonneg := sound.filledNonneg
  have below := sound.filledLe
  have bounded := sound.qtyFits
  have onSymbol : strncmp order.symbol.pointer sym.data 8 ≠ 0 ↔
      ¬order.symbol.string = fieldKey sym := not_congr strncmp_eq_zero_iff
  unfold addExposure
  simp only [onSymbol]
  by_cases isOpen : order.isOpen
  · by_cases symbol : order.symbol.string = fieldKey sym
    · have negated : arith.int32 (-(order.originalQty - order.filledQty)) =
          -(order.originalQty - order.filledQty) := by
        apply arith.int32_exact
        exact inRange_32 (by omega) (by omega)
      have sum := (abs_add_le exposure order.pendingSigned).trans_lt (by simpa [symbol] using small)
      obtain ⟨low, high⟩ := abs_lt.mp sum
      unfold Order.pendingSigned Side.sign at low high ⊢
      simp only [isOpen, symbol, remaining, negated, Bool.not_true, Bool.false_eq_true,
        not_true_eq_false, if_true, if_false] at low high ⊢
      split at low
      · rename_i buys
        simp only [buys, if_true] at low high ⊢
        rw [arith.int32_exact (inRange_32 (by omega) (by omega))]
        ring
      · rename_i sells
        simp only [sells, if_false] at low high ⊢
        rw [arith.int32_exact (inRange_32 (by omega) (by omega))]
        ring
    · simp [isOpen, symbol]
  · simp [isOpen, Order.pendingSigned]

/-- The 32-bit `open_exposure` scan is exact as long as the open quantity of the symbol,
both sides taken together, is within 32 bits. -/
theorem openExposure_eq_of_fits (arith : Arithmetic) {orders : OrderManager}
    (sound : ∀ order ∈ orders.slots, order.Sound) (sym : StringView)
    (fits : orders.totalOn (fieldKey sym) (fun order => |order.pendingSigned|) < 2 ^ 31) :
    orders.openExposure arith sym = orders.totalOn (fieldKey sym) Order.pendingSigned := by
  have scan : ∀ (slots : List Order) (exposure : Int), (∀ order ∈ slots, order.Sound) →
      |exposure| + (slots.map fun order =>
        if order.symbol.string = fieldKey sym then |order.pendingSigned| else 0).sum < 2 ^ 31 →
      slots.foldl (addExposure arith sym) exposure = exposure +
        (slots.map fun order =>
          if order.symbol.string = fieldKey sym then order.pendingSigned else 0).sum := by
    intro slots
    induction slots with
    | nil => intro exposure _ _; simp
    | cons order rest ih =>
        intro exposure ok room
        have head := ok order List.mem_cons_self
        have tail : ∀ other ∈ rest, other.Sound :=
          fun other member => ok other (List.mem_cons_of_mem _ member)
        have restNonneg : 0 ≤ (rest.map fun order =>
            if order.symbol.string = fieldKey sym then |order.pendingSigned| else 0).sum := by
          apply List.sum_nonneg
          intro value member
          obtain ⟨other, _, rfl⟩ := List.mem_map.mp member
          split
          · exact abs_nonneg _
          · exact le_refl 0
        have own : |if order.symbol.string = fieldKey sym then order.pendingSigned else 0| =
            if order.symbol.string = fieldKey sym then |order.pendingSigned| else 0 := by
          split <;> simp
        simp only [List.foldl_cons, List.map_cons, List.sum_cons] at room ⊢
        have visited : addExposure arith sym exposure order = exposure +
            if order.symbol.string = fieldKey sym then order.pendingSigned else 0 :=
          addExposure_eq arith head sym (by omega)
        have grown := abs_add_le exposure
          (if order.symbol.string = fieldKey sym then order.pendingSigned else 0)
        rw [visited, ih _ tail (by omega)]
        ring
  have scanned := scan orders.slots 0 sound (by simpa [totalOn] using fits)
  simpa [openExposure, totalOn] using scanned

/-- The scan is exact when every order is coherent: 512 orders of at most 10,000 cannot
leave the accumulator's range. -/
theorem openExposure_eq_totalOn (arith : Arithmetic) {orders : OrderManager}
    (coherent : ∀ order ∈ orders.slots, order.Coherent) (sym : StringView) :
    orders.openExposure arith sym = orders.totalOn (fieldKey sym) Order.pendingSigned := by
  have sound : ∀ order ∈ orders.slots, order.Sound :=
    fun order member => (coherent order member).sound
  apply openExposure_eq_of_fits arith sound
  have total := abs_totalOn_le (fieldKey sym) (show (0 : Int) ≤ 10000 by norm_num)
    fun order member => (abs_abs order.pendingSigned).trans_le
      ((sound order member).abs_pendingSigned_le.trans (coherent order member).qtyBounded)
  have upper := (abs_le.mp total).2
  simp only [maxOrders] at upper
  omega

end OrderManager

/-! ## The account -/

/-- A fill that has a slot or finds one free moves its symbol's net quantity by the signed
fill quantity. -/
theorem PositionTracker.netOf_applyEvent (arith : Arithmetic) {tracker : PositionTracker}
    {event : OrderEvent} (isFill : event.isFill = true)
    (room : tracker.find? event.symbol.string = none → tracker.slots.length < maxSymbols)
    (small : InRange 64 (tracker.netOf event.symbol.string + event.side.sign * event.fillQty))
    (symbol : List UInt8) :
    (tracker.applyEvent arith event).netOf symbol = tracker.netOf symbol +
      if event.symbol.string = symbol then event.side.sign * event.fillQty else 0 := by
  by_cases same : event.symbol.string = symbol
  · subst same
    unfold netOf at small ⊢
    cases found : tracker.find? event.symbol.string with
    | some position =>
        simp only [found] at small
        simp [find?_applyEvent_self arith tracker isFill found, Position.netQty_applyFill,
          arith.int64_exact small]
    | none =>
        simp only [found, zero_add] at small
        simp [find?_applyEvent_of_room arith tracker isFill found (room found),
          Position.netQty_applyFill, Position.zeroed, arith.int64_exact small]
  · unfold netOf
    rw [find?_applyEvent_of_ne arith tracker (Ne.symm same)]
    simp [same]

/-- A fill moves its symbol by the signed quantity, or it is dropped for want of a slot. -/
theorem PositionTracker.netOf_applyEvent_cases (arith : Arithmetic) {tracker : PositionTracker}
    {event : OrderEvent} (isFill : event.isFill = true)
    (small : InRange 64 (tracker.netOf event.symbol.string + event.side.sign * event.fillQty)) :
    tracker.applyEvent arith event = tracker ∨
    ∀ symbol, (tracker.applyEvent arith event).netOf symbol = tracker.netOf symbol +
      if event.symbol.string = symbol then event.side.sign * event.fillQty else 0 := by
  have keyed := key_applyFill_zeroed arith event
  by_cases room : tracker.find? event.symbol.string = none → tracker.slots.length < maxSymbols
  · exact .inr (netOf_applyEvent arith isFill room small)
  · obtain ⟨absent, full⟩ := Classical.not_imp.mp room
    left
    rw [applyEvent, if_pos isFill]
    exact SlotTable.upsert_of_full _ (by rwa [keyed]) (Nat.not_lt.mp full)

namespace Book

def initial : Book := ⟨PositionTracker.initial, OrderManager.initial⟩

/-- Both projections consume one event. -/
def apply (arith : Arithmetic) (book : Book) (event : OrderEvent) : Book :=
  ⟨book.tracker.applyEvent arith event, book.orders.applyEvent arith event⟩

theorem apply_of_newOrder (arith : Arithmetic) (book : Book) {event : OrderEvent}
    (type : event.type = .newOrder) :
    book.apply arith event = ⟨book.tracker, book.orders.handleNew event⟩ := by
  have notFill : event.isFill = false := by simp [OrderEvent.isFill, type]
  rw [apply, PositionTracker.applyEvent_of_not_fill arith _ notFill,
    OrderManager.applyEvent_of_newOrder arith _ type]

/-- The end of an order writes its slot and leaves the tracker alone. -/
theorem apply_of_close (arith : Arithmetic) (book : Book) {event : OrderEvent}
    (type : event.type = .cancel ∨ event.type = .reject) :
    ∃ state, (state = .cancelled ∨ state = .rejected) ∧
      book.apply arith event = ⟨book.tracker, SlotTable.update book.orders event.orderId.string
        (Order.ended state event) (Order.key_ended state event)⟩ := by
  have notFill : event.isFill = false := by
    obtain type | type := type <;> simp [OrderEvent.isFill, type]
  rw [apply, PositionTracker.applyEvent_of_not_fill arith _ notFill]
  obtain cancelled | rejected := type
  · refine ⟨.cancelled, .inl rfl, ?_⟩
    simp only [OrderManager.applyEvent, cancelled]
    rfl
  · refine ⟨.rejected, .inr rfl, ?_⟩
    simp only [OrderManager.applyEvent, rejected]
    rfl

/-- `net_qty + open_exposure`, the figure the risk check works with. -/
def trueExposure (arith : Arithmetic) (book : Book) (sym : StringView) : Int :=
  book.tracker.netQty sym + book.orders.openExposure arith sym

/-- The events of the ledger: a new order under a new id, a fill within an open
order, and the end of an open order. -/
inductive Takes (arith : Arithmetic) (book : Book) (event : OrderEvent) : Prop where
  | newOrder (type : event.type = .newOrder)
      (isNew : book.orders.find? event.orderId.string = none)
      (room : book.orders.orderCount < maxOrders)
      (positive : 0 < event.qty) (fits : event.qty < 2 ^ 31) :
      Takes arith book event
  | fill {order : Order} (isFill : event.isFill = true)
      (found : book.orders.find? event.orderId.string = some order) (isOpen : order.isOpen)
      (symbol : event.symbol.string = order.symbol.string)
      (side : event.side.sign = order.side.sign)
      (positive : 0 < event.fillQty) (fits : event.fillQty ≤ order.remainingQty arith) :
      Takes arith book event
  | close {order : Order} (type : event.type = .cancel ∨ event.type = .reject)
      (found : book.orders.find? event.orderId.string = some order) (isOpen : order.isOpen) :
      Takes arith book event

/-- The events of the ledger with orders of at most 10,000. -/
structure Admits (arith : Arithmetic) (book : Book) (event : OrderEvent) : Prop where
  taken : book.Takes arith event
  bounded : event.type = .newOrder → event.qty ≤ 10000

/-- One admitted event. -/
def Step (arith : Arithmetic) (before after : Book) : Prop :=
  ∃ event, before.Admits arith event ∧ after = before.apply arith event

/-- The books reached from empty projections by admitted events. -/
def Reachable (arith : Arithmetic) (book : Book) : Prop :=
  Relation.ReflTransGen (Step arith) initial book

/-- The two projections agree: every order is sound, each symbol's net quantity is what
its orders filled, and no position belongs to a symbol without an order. -/
structure Accounted (book : Book) : Prop where
  sound : ∀ order ∈ book.orders.slots, order.Sound
  filled : ∀ symbol, book.tracker.netOf symbol = book.orders.totalOn symbol Order.filledSigned
  known : ∀ symbol ∈ book.tracker.keys, ∃ order ∈ book.orders.slots, order.symbol.string = symbol

/-- The two projections agree, and every order is of at most 10,000. -/
structure Balanced (book : Book) : Prop where
  accounted : book.Accounted
  bounded : ∀ order ∈ book.orders.slots, order.originalQty ≤ 10000

theorem accounted_initial : Accounted initial where
  sound order member := by simp [initial, OrderManager.initial] at member
  filled symbol := rfl
  known symbol member := by simp [initial, PositionTracker.initial, SlotTable.keys] at member

namespace Accounted

variable {book : Book}

theorem sound_of_found (accounted : book.Accounted) {oid : List UInt8} {order : Order}
    (found : book.orders.find? oid = some order) : order.Sound :=
  accounted.sound order (SlotTable.find?_eq_some_iff.mp found).1

/-- There are never more symbols than orders, so the tracker has room. -/
theorem trackerRoom (accounted : book.Accounted) : book.tracker.slots.length < maxSymbols := by
  have subset : book.tracker.keys ⊆ book.orders.slots.map fun order => order.symbol.string := by
    intro symbol member
    obtain ⟨order, inTable, same⟩ := accounted.known symbol member
    exact List.mem_map.mpr ⟨order, inTable, same⟩
  have few := (List.subperm_of_subset book.tracker.distinct subset).length_le
  rw [List.length_map, List.length_map] at few
  have bounded := book.orders.bounded
  simp only [maxOrders, maxSymbols] at bounded ⊢
  omega

/-- A net quantity is bounded by the table's size and the largest order. -/
theorem abs_netOf_le (accounted : book.Accounted) {bound : Int} (nonneg : 0 ≤ bound)
    (bounded : ∀ order ∈ book.orders.slots, order.originalQty ≤ bound) (symbol : List UInt8) :
    |book.tracker.netOf symbol| ≤ bound * maxOrders := by
  rw [accounted.filled]
  exact OrderManager.abs_totalOn_le symbol nonneg fun order member =>
    (accounted.sound order member).abs_filledSigned_le.trans (bounded order member)

/-- So is what the orders of a symbol are committed to. -/
theorem abs_commitments_le (accounted : book.Accounted) {bound : Int} (nonneg : 0 ≤ bound)
    (bounded : ∀ order ∈ book.orders.slots, order.originalQty ≤ bound) (symbol : List UInt8) :
    |book.orders.totalOn symbol Order.commitment| ≤ bound * maxOrders :=
  OrderManager.abs_totalOn_le symbol nonneg fun order member =>
    (accounted.sound order member).abs_commitment_le.trans (bounded order member)

/-- A sound order never loses its soundness to an admitted rewrite of its slot. -/
theorem sound_update (accounted : book.Accounted) {wanted : List UInt8} {order : Order}
    {write : Order → Order} (keeps : ∀ slot, (write slot).key = slot.key)
    (found : book.orders.find? wanted = some order) (written : (write order).Sound) :
    ∀ slot ∈ (SlotTable.update book.orders wanted write keeps).slots, slot.Sound := by
  intro slot member
  obtain ⟨before, inTable, rfl⟩ := (SlotTable.mem_update write keeps).mp member
  obtain ⟨orderMem, orderKey⟩ := SlotTable.find?_eq_some_iff.mp found
  split
  · rename_i hit
    rw [book.orders.eq_of_key_eq inTable orderMem (hit.trans orderKey.symm)]
    exact written
  · exact accounted.sound before inTable

/-- A rewrite that keeps every symbol keeps the set of symbols with orders. -/
theorem known_update (accounted : book.Accounted) {wanted : List UInt8} {write : Order → Order}
    (keeps : ∀ slot, (write slot).key = slot.key)
    (sameSymbol : ∀ slot, (write slot).symbol = slot.symbol) {symbol : List UInt8}
    (member : symbol ∈ book.tracker.keys) :
    ∃ order ∈ (SlotTable.update book.orders wanted write keeps).slots,
      order.symbol.string = symbol := by
  obtain ⟨order, inTable, same⟩ := accounted.known symbol member
  refine ⟨_, (SlotTable.mem_update write keeps).mpr ⟨order, inTable, rfl⟩, ?_⟩
  split
  · rw [sameSymbol, same]
  · exact same

theorem newOrder (accounted : book.Accounted) {event : OrderEvent}
    (isNew : book.orders.find? event.orderId.string = none)
    (room : book.orders.orderCount < maxOrders)
    (positive : 0 < event.qty) (fits : event.qty < 2 ^ 31) :
    Accounted ⟨book.tracker, book.orders.handleNew event⟩ := by
  have created := OrderManager.slots_handleNew isNew room
  refine ⟨?_, ?_, ?_⟩
  · intro order member
    rw [created, List.mem_append, List.mem_singleton] at member
    obtain old | rfl := member
    · exact accounted.sound order old
    · exact Order.sound_opened _ positive fits
  · intro symbol
    rw [OrderManager.totalOn_newOrder isNew room, ← accounted.filled]
    simp [Order.filledSigned, Order.opened]
  · intro symbol member
    obtain ⟨order, inTable, same⟩ := accounted.known symbol member
    exact ⟨order, by rw [created]; exact List.mem_append_left _ inTable, same⟩

/-- A fill within an open order keeps the net quantity in range. -/
theorem inRange_fill (accounted : book.Accounted) {arith : Arithmetic} {event : OrderEvent}
    {order : Order} (found : book.orders.find? event.orderId.string = some order)
    (positive : 0 < event.fillQty) (fits : event.fillQty ≤ order.remainingQty arith) :
    InRange 64 (book.tracker.netOf event.symbol.string + event.side.sign * event.fillQty) := by
  have sound := accounted.sound_of_found found
  have net := abs_le.mp (accounted.abs_netOf_le (show (0 : Int) ≤ 2 ^ 31 by norm_num)
    (fun order member => (accounted.sound order member).qtyFits.le) event.symbol.string)
  simp only [maxOrders] at net
  have remaining := sound.remainingQty_eq arith
  have nonneg := sound.filledNonneg
  have bounded := sound.qtyFits
  unfold Side.sign
  split_ifs <;> exact inRange_64 (by omega) (by omega)

theorem fill (accounted : book.Accounted) (arith : Arithmetic) {event : OrderEvent}
    {order : Order} (isFill : event.isFill = true)
    (found : book.orders.find? event.orderId.string = some order)
    (symbolEq : event.symbol.string = order.symbol.string)
    (side : event.side.sign = order.side.sign) (positive : 0 < event.fillQty)
    (fits : event.fillQty ≤ order.remainingQty arith) :
    Accounted ⟨book.tracker.applyEvent arith event, book.orders.handleFill arith event⟩ := by
  have sound := accounted.sound_of_found found
  have filledEq := (sound.fill_fields arith positive fits).1
  have small := accounted.inRange_fill found positive fits
  refine ⟨?_, ?_, ?_⟩
  · exact accounted.sound_update (Order.key_fill arith event) found
      (sound.fill arith positive fits)
  · intro symbol
    have sameSymbol : (order.fill arith event).symbol = order.symbol := rfl
    have moved := OrderManager.totalOn_update (Order.key_fill arith event) sameSymbol found symbol
      Order.filledSigned
    rw [PositionTracker.netOf_applyEvent arith isFill (fun _ => accounted.trackerRoom) small,
      accounted.filled]
    refine Eq.trans ?_ moved.symm
    have sameSide : (order.fill arith event).side = order.side := rfl
    rw [symbolEq]
    split
    · rw [Order.filledSigned, Order.filledSigned, sameSide, filledEq, side]
      ring
    · rfl
  · intro symbol member
    obtain old | ⟨_, rfl⟩ := PositionTracker.mem_keys_applyEvent member
    · exact accounted.known_update (Order.key_fill arith event) (fun _ => rfl) old
    · obtain ⟨inTable, orderKey⟩ := SlotTable.find?_eq_some_iff.mp found
      refine ⟨order.fill arith event, ?_, symbolEq.symm⟩
      exact (SlotTable.mem_update _ (Order.key_fill arith event)).mpr
        ⟨order, inTable, (if_pos orderKey).symm⟩

/-- Ending an order leaves the account of filled quantity alone. -/
theorem close (accounted : book.Accounted) {wanted : List UInt8} {order : Order}
    {write : Order → Order} (keeps : ∀ slot, (write slot).key = slot.key)
    (found : book.orders.find? wanted = some order) (written : (write order).Sound)
    (sameSymbol : ∀ slot, (write slot).symbol = slot.symbol)
    (sameFilled : (write order).filledSigned = order.filledSigned) :
    Accounted ⟨book.tracker, SlotTable.update book.orders wanted write keeps⟩ := by
  refine ⟨accounted.sound_update keeps found written, ?_, ?_⟩
  · intro symbol
    rw [OrderManager.totalOn_update keeps (sameSymbol order) found, sameFilled, ← accounted.filled]
    simp
  · intro symbol member
    exact accounted.known_update keeps sameSymbol member

/-- Every event of the ledger keeps the projections in agreement. -/
theorem apply (accounted : book.Accounted) {arith : Arithmetic} {event : OrderEvent}
    (taken : book.Takes arith event) : (book.apply arith event).Accounted := by
  cases taken with
  | newOrder type isNew room positive fits =>
      rw [apply_of_newOrder arith book type]
      exact accounted.newOrder isNew room positive fits
  | fill isFill found isOpen symbol side positive fits =>
      rw [Book.apply, OrderManager.applyEvent_of_isFill arith _ isFill]
      exact accounted.fill arith isFill found symbol side positive fits
  | @close order type found isOpen =>
      have sound := accounted.sound_of_found found
      obtain ⟨state, dead, applied⟩ := apply_of_close arith book type
      rw [applied]
      exact accounted.close _ found (sound.ended dead event) (fun _ => rfl) rfl

/-- The ledger equation, from the account the invariant keeps. -/
theorem netQty_add_pending (accounted : book.Accounted) (sym : StringView) :
    book.tracker.netQty sym + book.orders.totalOn (fieldKey sym) Order.pendingSigned =
      book.orders.totalOn (fieldKey sym) Order.commitment := by
  rw [PositionTracker.netQty_eq_netOf, accounted.filled]
  unfold OrderManager.totalOn
  rw [← List.sum_map_add]
  congr 1
  apply List.map_congr_left
  intro order member
  split
  · exact (accounted.sound order member).commitment_eq.symm
  · rfl

end Accounted

/-- No event of the ledger changes the quantity an order was opened with. -/
theorem Takes.originalQty_le {arith : Arithmetic} {book : Book} {event : OrderEvent}
    (taken : book.Takes arith event) {bound : Int}
    (bounded : ∀ order ∈ book.orders.slots, order.originalQty ≤ bound)
    (sized : event.type = .newOrder → event.qty ≤ bound) :
    ∀ order ∈ (book.apply arith event).orders.slots, order.originalQty ≤ bound := by
  intro order member
  cases taken with
  | newOrder type isNew room =>
      rw [apply_of_newOrder arith book type, OrderManager.slots_handleNew isNew room,
        List.mem_append, List.mem_singleton] at member
      obtain old | rfl := member
      · exact bounded order old
      · exact sized type
  | fill isFill =>
      rw [Book.apply, OrderManager.applyEvent_of_isFill arith _ isFill] at member
      obtain ⟨before, inTable, rfl⟩ :=
        (SlotTable.mem_update _ (Order.key_fill arith event)).mp member
      have old := bounded before inTable
      split <;> exact old
  | close type =>
      obtain ⟨state, _, applied⟩ := apply_of_close arith book type
      rw [applied] at member
      obtain ⟨before, inTable, rfl⟩ :=
        (SlotTable.mem_update _ (Order.key_ended state event)).mp member
      have old := bounded before inTable
      split <;> exact old

namespace Balanced

variable {book : Book}

theorem coherent (balanced : book.Balanced) : ∀ order ∈ book.orders.slots, order.Coherent :=
  fun order member => ⟨balanced.accounted.sound order member, balanced.bounded order member⟩

theorem abs_netOf_le (balanced : book.Balanced) (symbol : List UInt8) :
    |book.tracker.netOf symbol| ≤ 5120000 :=
  balanced.accounted.abs_netOf_le (show (0 : Int) ≤ 10000 by norm_num)
    balanced.bounded symbol

theorem trueExposure_eq (balanced : book.Balanced) (arith : Arithmetic) (sym : StringView) :
    book.trueExposure arith sym = book.orders.totalOn (fieldKey sym) Order.commitment := by
  unfold trueExposure
  rw [OrderManager.openExposure_eq_totalOn arith balanced.coherent]
  exact balanced.accounted.netQty_add_pending sym

/-- The exposure of 512 orders of at most 10,000. -/
theorem abs_trueExposure_le (balanced : book.Balanced) (arith : Arithmetic) (sym : StringView) :
    |book.trueExposure arith sym| ≤ 5120000 := by
  rw [balanced.trueExposure_eq]
  exact balanced.accounted.abs_commitments_le (show (0 : Int) ≤ 10000 by norm_num)
    balanced.bounded _

/-- Every admitted event keeps the books balanced. -/
theorem apply (balanced : book.Balanced) {arith : Arithmetic} {event : OrderEvent}
    (admitted : book.Admits arith event) : (book.apply arith event).Balanced where
  accounted := balanced.accounted.apply admitted.taken
  bounded := admitted.taken.originalQty_le balanced.bounded admitted.bounded

end Balanced

/-- Books reached by admitted events are balanced. -/
theorem Reachable.balanced {arith : Arithmetic} {book : Book} (reached : book.Reachable arith) :
    book.Balanced := by
  induction reached with
  | refl => exact ⟨accounted_initial, fun _ member => (nomatch member)⟩
  | tail _ step ih =>
      obtain ⟨event, admitted, rfl⟩ := step
      exact ih.apply admitted

/-! ## How each event moves true exposure -/

theorem Balanced.trueExposure_fill {book : Book} (balanced : book.Balanced) {arith : Arithmetic}
    {event : OrderEvent} (admitted : book.Admits arith event) (isFill : event.isFill = true)
    (sym : StringView) :
    (book.apply arith event).trueExposure arith sym = book.trueExposure arith sym := by
  rw [(balanced.apply admitted).trueExposure_eq, balanced.trueExposure_eq]
  cases admitted.taken with
  | newOrder type => simp [OrderEvent.isFill, type] at isFill
  | close type => obtain type | type := type <;> simp [OrderEvent.isFill, type] at isFill
  | @fill order isFill found isOpen symbol side positive fits =>
      have sound := balanced.accounted.sound_of_found found
      have stateEq := (sound.fill_fields arith positive fits).2
      have sameCommitment : (order.fill arith event).commitment = order.commitment := by
        have alive : ¬(order.state = .cancelled ∨ order.state = .rejected) := by
          rintro (dead | dead) <;> simp [Order.isOpen, dead] at isOpen
        have aliveAfter : ¬((order.fill arith event).state = .cancelled ∨
            (order.fill arith event).state = .rejected) := by
          rw [stateEq]
          split <;> simp
        rw [Order.commitment, Order.commitment, if_neg alive, if_neg aliveAfter]
        rfl
      have moved := OrderManager.totalOn_update (Order.key_fill arith event) rfl found
        (fieldKey sym) Order.commitment
      rw [Book.apply, OrderManager.applyEvent_of_isFill arith _ isFill]
      refine moved.trans ?_
      simp [sameCommitment]

/-- The quantity the risk check projects for an order is its signed quantity. -/
theorem signedQty_eq (arith : Arithmetic) (side : Side) {qty : Int} (positive : 0 < qty)
    (fits : qty < 2 ^ 31) : RiskChecker.signedQty arith side qty = side.sign * qty := by
  have negated : arith.int32 (-qty) = -qty := by
    apply arith.int32_exact
    exact inRange_32 (by omega) (by omega)
  unfold RiskChecker.signedQty Side.sign
  split <;> simp [negated]

theorem Balanced.trueExposure_newOrder {book : Book} (balanced : book.Balanced)
    {arith : Arithmetic} {event : OrderEvent} (admitted : book.Admits arith event)
    (type : event.type = .newOrder) (sym : StringView) :
    (book.apply arith event).trueExposure arith sym = book.trueExposure arith sym +
      if event.symbol.string = fieldKey sym then
        RiskChecker.signedQty arith event.side event.qty else 0 := by
  rw [(balanced.apply admitted).trueExposure_eq, balanced.trueExposure_eq]
  cases admitted.taken with
  | fill isFill => simp [OrderEvent.isFill, type] at isFill
  | close other => simp [type] at other
  | newOrder _ isNew room positive fits =>
      rw [Book.apply, OrderManager.applyEvent_of_newOrder arith _ type,
        OrderManager.totalOn_newOrder isNew room, signedQty_eq arith _ positive fits]
      rfl

theorem Balanced.trueExposure_close {book : Book} (balanced : book.Balanced)
    {arith : Arithmetic} {event : OrderEvent} (admitted : book.Admits arith event)
    (type : event.type = .cancel ∨ event.type = .reject) {order : Order}
    (found : book.orders.find? event.orderId.string = some order) (sym : StringView) :
    (book.apply arith event).trueExposure arith sym = book.trueExposure arith sym -
      if order.symbol.string = fieldKey sym then order.side.sign * order.remainingQty arith
      else 0 := by
  rw [(balanced.apply admitted).trueExposure_eq, balanced.trueExposure_eq]
  have sound := balanced.accounted.sound_of_found found
  have isOpen : order.isOpen := by
    cases admitted.taken with
    | newOrder other => simp [other] at type
    | fill isFill => obtain type | type := type <;> simp [OrderEvent.isFill, type] at isFill
    | close _ foundToo isOpen =>
        rw [found] at foundToo
        cases foundToo
        exact isOpen
  have alive : ¬(order.state = .cancelled ∨ order.state = .rejected) := by
    rintro (dead | dead) <;> simp [Order.isOpen, dead] at isOpen
  have before : order.commitment = order.side.sign * order.originalQty := by
    rw [Order.commitment, if_neg alive]
  obtain ⟨state, dead, applied⟩ := apply_of_close arith book type
  have after : (order.ended state event).commitment = order.side.sign * order.filledQty := by
    obtain rfl | rfl := dead <;> rfl
  rw [applied, OrderManager.totalOn_update (Order.key_ended state event) rfl found, after, before,
    sound.remainingQty_eq]
  split <;> ring

/-- In every reachable book, filled plus pending quantity of a symbol is the sum of
what its orders are committed to. A fill moves quantity from pending to filled, a
new order adds what the risk check projected for it, and the end of an order gives
back what it had not filled. -/
theorem true_exposure_ledger (arith : Arithmetic) {book : Book} (reached : book.Reachable arith)
    (sym : StringView) :
    book.trueExposure arith sym = book.orders.totalOn (fieldKey sym) Order.commitment ∧
    ∀ event, book.Admits arith event →
      (event.isFill = true →
        (book.apply arith event).trueExposure arith sym = book.trueExposure arith sym) ∧
      (event.type = .newOrder →
        (book.apply arith event).trueExposure arith sym = book.trueExposure arith sym +
          if event.symbol.string = fieldKey sym then
            RiskChecker.signedQty arith event.side event.qty else 0) ∧
      (∀ order, (event.type = .cancel ∨ event.type = .reject) →
        book.orders.find? event.orderId.string = some order →
        (book.apply arith event).trueExposure arith sym = book.trueExposure arith sym -
          if order.symbol.string = fieldKey sym then order.side.sign * order.remainingQty arith
          else 0) := by
  have balanced := reached.balanced
  refine ⟨balanced.trueExposure_eq arith sym, fun event admitted => ⟨?_, ?_, ?_⟩⟩
  · exact fun isFill => balanced.trueExposure_fill admitted isFill sym
  · exact fun type => balanced.trueExposure_newOrder admitted type sym
  · exact fun order type found => balanced.trueExposure_close admitted type found sym

/-- 100 shares of AAPL are ordered and 60 of them bought, and 50 of MSFT are sold. -/
def sampleTrading : List OrderEvent :=
  let aapl := StringView.ofList (ascii "AAPL")
  let msft := StringView.ofList (ascii "MSFT")
  let first := StringView.ofList (ascii "ORD0")
  let second := StringView.ofList (ascii "ORD1")
  [makeNewOrder aapl .buy 100 priceScale first, makeFill aapl .buy 60 priceScale first true,
    makeNewOrder msft .sell 50 priceScale second, makeFill msft .sell 50 priceScale second false]

/-- The book then: 60 and -50 are held, and 40 are on order. -/
def sampleBook : Book := sampleTrading.foldl (Book.apply .wrapping) initial

theorem reachable_sampleBook : sampleBook.Reachable .wrapping := by
  have ordered : (initial.apply .wrapping sampleTrading[0]).Reachable .wrapping :=
    .tail .refl ⟨_, ⟨.newOrder rfl rfl (by decide) (by decide) (by decide), by decide⟩, rfl⟩
  have bought := ordered.tail ⟨sampleTrading[1], ⟨.fill rfl
    (Option.eq_some_of_isSome (by decide +kernel)) (by decide +kernel) (by decide +kernel)
    (by decide +kernel) (by decide +kernel) (by decide +kernel), by decide⟩, rfl⟩
  have offered := bought.tail ⟨sampleTrading[2], ⟨.newOrder rfl (by decide +kernel)
    (by decide +kernel) (by decide +kernel) (by decide +kernel), by decide⟩, rfl⟩
  exact offered.tail ⟨sampleTrading[3], ⟨.fill rfl
    (Option.eq_some_of_isSome (by decide +kernel)) (by decide +kernel) (by decide +kernel)
    (by decide +kernel) (by decide +kernel) (by decide +kernel), by decide⟩, rfl⟩

/-- The rest of the first order is cancelled. -/
def sampleCancel : OrderEvent :=
  { OrderEvent.zero with
    type := .cancel
    orderId := strncpy (StringView.ofList (ascii "ORD0")).data 8 }

/-- Of 100 shares ordered, 60 were bought and 40 are given back by the cancellation. -/
theorem true_exposure_ledger_part_cancelled :
    let aapl := StringView.ofList (ascii "AAPL")
    sampleBook.trueExposure .wrapping aapl = 100 ∧
      (sampleBook.apply .wrapping sampleCancel).trueExposure .wrapping aapl = 60 := by
  intro aapl
  have found := Option.eq_some_of_isSome (show
    (sampleBook.orders.find? sampleCancel.orderId.string).isSome = true by decide +kernel)
  obtain ⟨committed, moves⟩ := true_exposure_ledger .wrapping reachable_sampleBook aapl
  have admitted : sampleBook.Admits .wrapping sampleCancel :=
    ⟨.close (.inl rfl) found (by decide +kernel), by decide⟩
  have cancelled := (moves sampleCancel admitted).2.2 _ (.inl rfl) found
  have before : sampleBook.trueExposure .wrapping aapl = 100 := committed.trans (by decide +kernel)
  refine ⟨before, ?_⟩
  rw [cancelled, before]
  decide +kernel

end Book

end Hft
