import Hft.EventLog
import Hft.Logical.Arithmetic
import Hft.Logical.SlotTable

/-!
# The position projection

One slot per symbol, created by the symbol's first fill. `applyBuy` and
`applySell` are written separately because the source's are: they split at a
flat position on different sides and value a close with different expressions.
-/

namespace Hft

open Logical

@[ext]
structure Position where
  symbol : CharArray 8
  netQty : Int
  avgEntryPrice : Int
  realizedPnl : Int
  unrealizedPnl : Int
  totalBuyQty : Int
  totalSellQty : Int
  lastPrice : Int
  lastUpdatedSeq : Int
deriving DecidableEq

namespace Position

/-- What a search by symbol compares. -/
def key (position : Position) : List UInt8 := position.symbol.string

/-- The slot `get_or_create` hands out: cleared but for the symbol. -/
def zeroed (symbol : CharArray 8) : Position where
  symbol := symbol
  netQty := 0
  avgEntryPrice := 0
  realizedPnl := 0
  unrealizedPnl := 0
  totalBuyQty := 0
  totalSellQty := 0
  lastPrice := 0
  lastUpdatedSeq := 0

def symbolView (position : Position) : StringView :=
  ⟨position.symbol.pointer, strnlen position.symbol.pointer 8⟩

def isFlat (position : Position) : Bool := position.netQty = 0

def refreshUnrealized (arith : Arithmetic) (position : Position) : Position :=
  { position with
    unrealizedPnl :=
      if 0 < position.lastPrice ∧ position.netQty ≠ 0 then
        arith.int64 (arith.int64 (position.lastPrice - position.avgEntryPrice) * position.netQty)
      else 0 }

/-- The net position and its cost after a buy. -/
def bookBuy (arith : Arithmetic) (qty price : Int) (position : Position) : Position :=
  if 0 ≤ position.netQty then
    let newQty := arith.int64 (position.netQty + qty)
    let newCost := arith.int64 (arith.int64 (position.avgEntryPrice * position.netQty) +
      arith.int64 (price * qty))
    { position with
      avgEntryPrice := if 0 < newQty then newCost.tdiv newQty else 0
      netQty := newQty }
  else
    let cover :=
      if qty ≤ arith.int64 (-position.netQty) then qty else arith.int64 (-position.netQty)
    let netQty := arith.int64 (position.netQty + qty)
    { position with
      realizedPnl := arith.int64 (position.realizedPnl +
        arith.int64 (arith.int64 (position.avgEntryPrice - price) * cover))
      netQty := netQty
      avgEntryPrice :=
        if 0 < netQty then price else if netQty = 0 then 0 else position.avgEntryPrice }

/-- The net position and its cost after a sell. -/
def bookSell (arith : Arithmetic) (qty price : Int) (position : Position) : Position :=
  if 0 < position.netQty then
    let close := if qty ≤ position.netQty then qty else position.netQty
    let netQty := arith.int64 (position.netQty - qty)
    { position with
      realizedPnl := arith.int64 (position.realizedPnl +
        arith.int64 (arith.int64 (price - position.avgEntryPrice) * close))
      netQty := netQty
      avgEntryPrice :=
        if netQty < 0 then price else if netQty = 0 then 0 else position.avgEntryPrice }
  else
    let newQty := arith.int64 (arith.int64 (-position.netQty) + qty)
    let newCost := arith.int64
      (arith.int64 (position.avgEntryPrice * arith.int64 (-position.netQty)) +
        arith.int64 (price * qty))
    { position with
      avgEntryPrice := if 0 < newQty then newCost.tdiv newQty else 0
      netQty := arith.int64 (position.netQty - qty) }

def applyBuy (arith : Arithmetic) (qty price : Int) (seq : Nat) (position : Position) : Position :=
  let counted := { position with totalBuyQty := arith.int32 (position.totalBuyQty + qty) }
  { refreshUnrealized arith (bookBuy arith qty price counted) with lastUpdatedSeq := seq }

def applySell (arith : Arithmetic) (qty price : Int) (seq : Nat) (position : Position) : Position :=
  let counted := { position with totalSellQty := arith.int32 (position.totalSellQty + qty) }
  { refreshUnrealized arith (bookSell arith qty price counted) with lastUpdatedSeq := seq }

/-- The branch `apply_event` takes on the slot of a fill. -/
def applyFill (arith : Arithmetic) (event : OrderEvent) (position : Position) : Position :=
  if event.side = .buy then
    applyBuy arith event.fillQty event.fillPrice event.sequence position
  else applySell arith event.fillQty event.fillPrice event.sequence position

/-- A mark on a slot; a flat position ignores it. -/
def mark (arith : Arithmetic) (mktPriceFp : Int) (position : Position) : Position :=
  if position.isFlat then position
  else { position with
    lastPrice := mktPriceFp
    unrealizedPnl :=
      arith.int64 (arith.int64 (mktPriceFp - position.avgEntryPrice) * position.netQty) }

@[simp] theorem symbol_bookBuy (arith : Arithmetic) (qty price : Int) (position : Position) :
    (position.bookBuy arith qty price).symbol = position.symbol := by
  unfold bookBuy
  split <;> rfl

@[simp] theorem symbol_bookSell (arith : Arithmetic) (qty price : Int) (position : Position) :
    (position.bookSell arith qty price).symbol = position.symbol := by
  unfold bookSell
  split <;> rfl

@[simp] theorem key_applyFill (arith : Arithmetic) (event : OrderEvent) (position : Position) :
    (position.applyFill arith event).key = position.key := by
  unfold applyFill
  split <;> simp [key, applyBuy, applySell, refreshUnrealized]

/-- Every branch of a fill moves the net position by the signed quantity. -/
theorem netQty_applyFill (arith : Arithmetic) (event : OrderEvent) (position : Position) :
    (position.applyFill arith event).netQty =
      arith.int64 (position.netQty + event.side.sign * event.fillQty) := by
  unfold applyFill Side.sign
  split
  · simp only [applyBuy, refreshUnrealized, bookBuy, one_mul]
    split <;> rfl
  · simp only [applySell, refreshUnrealized, bookSell, neg_mul, one_mul, ← sub_eq_add_neg]
    split <;> rfl

@[simp] theorem key_zeroed (symbol : CharArray 8) : (zeroed symbol).key = symbol.string := rfl

@[simp] theorem key_mark (arith : Arithmetic) (mktPriceFp : Int) (position : Position) :
    (position.mark arith mktPriceFp).key = position.key := by
  unfold mark
  split <;> rfl

end Position

/-- `MAX_SYMBOLS`. -/
def maxSymbols : Nat := 1024

/-- The occupied slots `[0, count_)` of the position array. -/
abbrev PositionTracker := SlotTable Position Position.key maxSymbols

namespace PositionTracker

/-- A freshly constructed tracker. -/
def initial : PositionTracker := SlotTable.empty

/-- `find` and `get`. -/
def get (tracker : PositionTracker) (sym : StringView) : Option Position :=
  tracker.slots.find? fun position => strncmp position.symbol.pointer sym.data 8 = 0

def applyEvent (arith : Arithmetic) (tracker : PositionTracker) (event : OrderEvent) :
    PositionTracker :=
  if event.isFill then
    tracker.upsert
      (Position.applyFill arith event (Position.zeroed (strncpy event.symbolView.data 8)))
      (Position.applyFill arith event) (Position.key_applyFill arith event)
  else tracker

/-- `replay_from` forgets what the tracker held and folds the log. -/
def replayFrom (arith : Arithmetic) (_tracker : PositionTracker) (log : EventLog) :
    PositionTracker :=
  log.replay (applyEvent arith) initial

def markToMarket (arith : Arithmetic) (tracker : PositionTracker) (sym : StringView)
    (mktPriceFp : Int) : PositionTracker :=
  tracker.update (fieldKey sym) (Position.mark arith mktPriceFp)
    (Position.key_mark arith mktPriceFp)

def symbolCount (tracker : PositionTracker) : Nat := tracker.slots.length

/-- The net quantity of a symbol, 0 when it has no slot. -/
def netQty (tracker : PositionTracker) (sym : StringView) : Int :=
  match tracker.get sym with
  | some position => position.netQty
  | none => 0

/-- The `strncmp` search is a search by key. -/
theorem get_eq_find? (tracker : PositionTracker) (sym : StringView) :
    tracker.get sym = tracker.find? (fieldKey sym) := by
  unfold get SlotTable.find?
  congr 1
  funext position
  exact decide_eq_decide.mpr strncmp_eq_zero_iff

/-- A search returns exactly the slot of its key. -/
theorem get_eq_some_iff {tracker : PositionTracker} {sym : StringView} {position : Position} :
    tracker.get sym = some position ↔ position ∈ tracker.slots ∧ position.key = fieldKey sym := by
  rw [get_eq_find?]
  exact SlotTable.find?_eq_some_iff

theorem key_applyFill_zeroed (arith : Arithmetic) (event : OrderEvent) :
    (Position.applyFill arith event
      (Position.zeroed (strncpy event.symbolView.data 8))).key = event.symbol.string := by
  rw [Position.key_applyFill, Position.key_zeroed, string_strncpy]
  rfl

theorem applyEvent_of_not_fill (arith : Arithmetic) (tracker : PositionTracker)
    {event : OrderEvent} (notFill : event.isFill = false) :
    tracker.applyEvent arith event = tracker := by
  simp [applyEvent, notFill]

/-- A fill leaves every other symbol's slot alone. -/
theorem find?_applyEvent_of_ne (arith : Arithmetic) (tracker : PositionTracker)
    {event : OrderEvent} {other : List UInt8} (differs : other ≠ event.symbol.string) :
    (tracker.applyEvent arith event).find? other = tracker.find? other := by
  unfold applyEvent
  split
  · exact SlotTable.find?_upsert_of_ne _ (by rwa [key_applyFill_zeroed])
  · rfl

/-- A fill rewrites its symbol's slot in place. -/
theorem find?_applyEvent_self (arith : Arithmetic) (tracker : PositionTracker)
    {event : OrderEvent} {position : Position} (isFill : event.isFill = true)
    (found : tracker.find? event.symbol.string = some position) :
    (tracker.applyEvent arith event).find? event.symbol.string =
      some (position.applyFill arith event) := by
  have foundKey : tracker.find? (Position.applyFill arith event
      (Position.zeroed (strncpy event.symbolView.data 8))).key = some position := by
    rwa [key_applyFill_zeroed]
  rw [applyEvent, if_pos isFill, SlotTable.upsert_of_found _ foundKey]
  rw [← key_applyFill_zeroed arith event]
  exact SlotTable.find?_update_self _ foundKey

/-- A symbol's first fill is booked on a cleared slot, if there is one. -/
theorem find?_applyEvent_of_room (arith : Arithmetic) (tracker : PositionTracker)
    {event : OrderEvent} (isFill : event.isFill = true)
    (absent : tracker.find? event.symbol.string = none)
    (room : tracker.slots.length < maxSymbols) :
    (tracker.applyEvent arith event).find? event.symbol.string =
      some (Position.applyFill arith event
        (Position.zeroed (strncpy event.symbolView.data 8))) := by
  rw [applyEvent, if_pos isFill]
  have absentKey : tracker.find? (Position.applyFill arith event
      (Position.zeroed (strncpy event.symbolView.data 8))).key = none := by
    rwa [key_applyFill_zeroed]
  have created := SlotTable.find?_upsert_self_of_room (Position.key_applyFill arith event)
    absentKey room
  rwa [key_applyFill_zeroed] at created

/-- The tracker only ever holds symbols it has seen a fill of. -/
theorem mem_keys_applyEvent {arith : Arithmetic} {tracker : PositionTracker} {event : OrderEvent}
    {symbol : List UInt8} (member : symbol ∈ (tracker.applyEvent arith event).keys) :
    symbol ∈ tracker.keys ∨ (event.isFill = true ∧ symbol = event.symbol.string) := by
  unfold applyEvent at member
  split at member
  · rename_i isFill
    rw [← key_applyFill_zeroed arith event]
    exact (SlotTable.mem_keys_upsert _ member).imp_right fun same => ⟨isFill, same⟩
  · exact .inl member

end PositionTracker

end Hft
