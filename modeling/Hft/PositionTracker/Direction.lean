import Hft.Logical.RunningAverage
import Hft.PositionTracker

/-!
# Both sides as one rule

`apply_buy` and `apply_sell` compare with zero differently and value a close with
different expressions. Counted in the direction of the fill they do the same thing, field
by field, and what holds of buys and sells alike follows from these equations without a
look at either: exchanging the sides mirrors the position (`applyFill_mirrored`), and a
fill that adds to nothing may be cut in two (`applyFill_split`).
-/

namespace Hft

open Logical

namespace Position

/-- The entry price after a fill of a position that holds `held` in the fill's direction. -/
def entryPrice (held average qty price : Int) : Int :=
  if 0 ≤ held then if 0 < held + qty then averaged average held price qty else 0
  else if 0 < held + qty then price
  else if held + qty = 0 then 0 else average

/-- How much of a fill closes what is held against it. -/
def closedQty (held qty : Int) : Int :=
  if 0 ≤ held then 0 else if qty ≤ -held then qty else -held

/-- What the open quantity would gain at the last price, if there is one. -/
def openProfit (position : Position) : Int :=
  if 0 < position.lastPrice ∧ position.netQty ≠ 0 then
    (position.lastPrice - position.avgEntryPrice) * position.netQty
  else 0

/-! ## A fill, field by field -/

section Booking

variable (arith : Arithmetic) (qty price : Int) (position : Position)

/-- What booking a buy leaves alone. -/
@[simp] theorem frame_bookBuy :
    (position.bookBuy arith qty price).lastPrice = position.lastPrice ∧
      (position.bookBuy arith qty price).totalBuyQty = position.totalBuyQty ∧
      (position.bookBuy arith qty price).totalSellQty = position.totalSellQty := by
  unfold bookBuy
  split <;> exact ⟨rfl, rfl, rfl⟩

@[simp] theorem frame_bookSell :
    (position.bookSell arith qty price).lastPrice = position.lastPrice ∧
      (position.bookSell arith qty price).totalBuyQty = position.totalBuyQty ∧
      (position.bookSell arith qty price).totalSellQty = position.totalSellQty := by
  unfold bookSell
  split <;> exact ⟨rfl, rfl, rfl⟩

end Booking

section Fields

variable (arith : Arithmetic) (event : OrderEvent) (position : Position)

@[simp] theorem symbol_applyFill : (position.applyFill arith event).symbol = position.symbol := by
  unfold applyFill
  split <;> simp [applyBuy, applySell, refreshUnrealized]

@[simp] theorem lastPrice_applyFill :
    (position.applyFill arith event).lastPrice = position.lastPrice := by
  unfold applyFill
  split <;> simp [applyBuy, applySell, refreshUnrealized]

@[simp] theorem lastUpdatedSeq_applyFill :
    (position.applyFill arith event).lastUpdatedSeq = event.sequence := by
  unfold applyFill
  split <;> rfl

theorem totalBuyQty_applyFill : (position.applyFill arith event).totalBuyQty =
    if event.side = .buy then arith.int32 (position.totalBuyQty + event.fillQty)
    else position.totalBuyQty := by
  unfold applyFill
  split <;> simp [applyBuy, applySell, refreshUnrealized]

theorem totalSellQty_applyFill : (position.applyFill arith event).totalSellQty =
    if event.side = .buy then position.totalSellQty
    else arith.int32 (position.totalSellQty + event.fillQty) := by
  unfold applyFill
  split <;> simp [applyBuy, applySell, refreshUnrealized]

theorem avgEntryPrice_applyFill : (position.applyFill .exact event).avgEntryPrice =
    entryPrice (event.side.sign * position.netQty) position.avgEntryPrice event.fillQty
      event.fillPrice := by
  unfold applyFill Side.sign entryPrice averaged
  by_cases buys : event.side = .buy
  · simp only [if_pos buys, applyBuy, refreshUnrealized, bookBuy, Arithmetic.exact_int64, one_mul]
    split <;> rfl
  · simp only [if_neg buys, applySell, refreshUnrealized, bookSell, Arithmetic.exact_int64,
      neg_one_mul]
    by_cases long : 0 < position.netQty
    · have against : ¬0 ≤ -position.netQty := by omega
      have crosses : position.netQty - event.fillQty < 0 ↔
          0 < -position.netQty + event.fillQty := by omega
      have closes : position.netQty - event.fillQty = 0 ↔
          -position.netQty + event.fillQty = 0 := by omega
      simp only [if_pos long, if_neg against, crosses, closes]
    · have along : 0 ≤ -position.netQty := by omega
      simp only [if_neg long, if_pos along]
      rfl

theorem realizedPnl_applyFill : (position.applyFill .exact event).realizedPnl =
    position.realizedPnl + event.side.sign * ((position.avgEntryPrice - event.fillPrice) *
      closedQty (event.side.sign * position.netQty) event.fillQty) := by
  unfold applyFill Side.sign closedQty
  by_cases buys : event.side = .buy
  · simp only [if_pos buys, applyBuy, refreshUnrealized, bookBuy, Arithmetic.exact_int64, one_mul]
    split
    · simp
    · rfl
  · simp only [if_neg buys, applySell, refreshUnrealized, bookSell, Arithmetic.exact_int64,
      neg_one_mul]
    by_cases long : 0 < position.netQty
    · have against : ¬0 ≤ -position.netQty := by omega
      simp only [if_pos long, if_neg against, neg_neg]
      ring
    · have along : 0 ≤ -position.netQty := by omega
      simp only [if_neg long, if_pos along, mul_zero, neg_zero, add_zero]

/-- A fill counts fully in its own direction. -/
theorem sign_mul_netQty_applyFill :
    event.side.sign * (position.applyFill .exact event).netQty =
      event.side.sign * position.netQty + event.fillQty := by
  rw [netQty_applyFill, Arithmetic.exact_int64]
  obtain sign | sign := event.side.sign_eq <;> rw [sign] <;> ring

/-- Whatever a fill changes, it revalues the position last. -/
theorem unrealizedPnl_applyFill : (position.applyFill .exact event).unrealizedPnl =
    (position.applyFill .exact event).openProfit := by
  unfold applyFill
  split <;> rfl

end Fields

/-! ## Exchanging the sides -/

/-- The position that the other side of every trade holds. -/
def mirrored (position : Position) : Position :=
  { position with
    netQty := -position.netQty
    realizedPnl := -position.realizedPnl
    unrealizedPnl := -position.unrealizedPnl
    totalBuyQty := position.totalSellQty
    totalSellQty := position.totalBuyQty }

@[simp] theorem key_mirrored (position : Position) : position.mirrored.key = position.key := rfl

end Position

/-- The same event on the other side. -/
def OrderEvent.mirrored (event : OrderEvent) : OrderEvent :=
  { event with side := event.side.opposite }

namespace Position

theorem openProfit_congr {left right : Position} (last : left.lastPrice = right.lastPrice)
    (net : left.netQty = right.netQty) (entry : left.avgEntryPrice = right.avgEntryPrice) :
    left.openProfit = right.openProfit := by
  rw [openProfit, openProfit, last, net, entry]

theorem openProfit_mirrored (position : Position) :
    position.mirrored.openProfit = -position.openProfit := by
  unfold openProfit mirrored
  simp only [ne_eq, neg_eq_zero, mul_neg]
  split <;> simp

/-- A position and its mirror image hold the same in the direction of their fills. -/
theorem heldAlong_mirrored (event : OrderEvent) (position : Position) :
    event.mirrored.side.sign * position.mirrored.netQty = event.side.sign * position.netQty := by
  simp [OrderEvent.mirrored, mirrored, Side.sign_opposite]

theorem mirrored_applyFill (event : OrderEvent) (position : Position) :
    position.mirrored.applyFill .exact event.mirrored =
      (position.applyFill .exact event).mirrored := by
  have net : (position.mirrored.applyFill .exact event.mirrored).netQty =
      -(position.applyFill .exact event).netQty := by
    simp only [netQty_applyFill, Arithmetic.exact_int64]
    simp [OrderEvent.mirrored, mirrored, Side.sign_opposite]
    ring
  have entry : (position.mirrored.applyFill .exact event.mirrored).avgEntryPrice =
      (position.applyFill .exact event).avgEntryPrice := by
    rw [avgEntryPrice_applyFill, avgEntryPrice_applyFill, heldAlong_mirrored]
    rfl
  have realized : (position.mirrored.applyFill .exact event.mirrored).realizedPnl =
      -(position.applyFill .exact event).realizedPnl := by
    rw [realizedPnl_applyFill, realizedPnl_applyFill, heldAlong_mirrored]
    simp [OrderEvent.mirrored, mirrored, Side.sign_opposite]
    ring
  have profit : (position.mirrored.applyFill .exact event.mirrored).unrealizedPnl =
      -(position.applyFill .exact event).unrealizedPnl := by
    rw [unrealizedPnl_applyFill, unrealizedPnl_applyFill, ← openProfit_mirrored]
    exact openProfit_congr (by simp [mirrored]) net entry
  have sides : event.mirrored.side = .buy ↔ event.side ≠ .buy := by
    cases side : event.side <;> simp [OrderEvent.mirrored, Side.opposite, side]
  ext : 1
  case netQty => exact net
  case avgEntryPrice => exact entry
  case realizedPnl => exact realized
  case unrealizedPnl => exact profit
  case totalBuyQty =>
    simp only [totalBuyQty_applyFill, mirrored, totalSellQty_applyFill, sides]
    split <;> simp_all [OrderEvent.mirrored]
  case totalSellQty =>
    simp only [totalBuyQty_applyFill, mirrored, totalSellQty_applyFill, sides]
    split <;> simp_all [OrderEvent.mirrored]
  case symbol => simp [mirrored]
  case lastPrice => simp [mirrored]
  case lastUpdatedSeq => simp [mirrored, OrderEvent.mirrored]

/-! ## Cutting a fill in two -/

section Split

variable {held qty first second : Int} (average price : Int)

/-- Against what is held, a fill leaves its own price, no price or the old one. -/
theorem entryPrice_against (against : held ≤ 0) (positive : 0 < qty) :
    entryPrice held average qty price =
      if 0 < held + qty then price else if held + qty = 0 then 0 else average := by
  unfold entryPrice
  by_cases flat : held = 0
  · subst flat
    have opens : 0 < 0 + qty := by omega
    rw [if_pos le_rfl, if_pos opens, if_pos opens, averaged_zero average price positive]
  · have short : ¬0 ≤ held := by omega
    rw [if_neg short]

theorem entryPrice_split (against : held ≤ 0) (firstPos : 0 < first) (secondPos : 0 < second) :
    entryPrice (held + first) (entryPrice held average first price) second price =
      entryPrice held average (first + second) price := by
  have bothPos : 0 < first + second := by omega
  rw [entryPrice_against average price against firstPos,
    entryPrice_against average price against bothPos, ← add_assoc]
  rcases lt_trichotomy (held + first) 0 with short | flat | crossed
  · have still : ¬0 < held + first := by omega
    have some : ¬held + first = 0 := by omega
    rw [if_neg still, if_neg some, entryPrice_against _ _ short.le secondPos]
  · have opens : 0 < 0 + second := by omega
    rw [flat, entryPrice_against _ _ le_rfl secondPos, if_pos opens, if_pos opens]
  · -- The second part adds to what the first opened, at the same price.
    have more : 0 < held + first + second := by omega
    rw [if_pos crossed, if_pos more, entryPrice, if_pos crossed.le, if_pos more,
      averaged_self price more]

/-- The second part is valued at an entry price that the first may have changed, but then it
closes nothing. -/
theorem closedQty_split (against : held ≤ 0) (firstPos : 0 < first) (secondPos : 0 < second) :
    (average - price) * closedQty held first +
        (entryPrice held average first price - price) * closedQty (held + first) second =
      (average - price) * closedQty held (first + second) := by
  rw [entryPrice_against average price against firstPos]
  by_cases short : held + first < 0
  · have before : ¬0 ≤ held := by omega
    have still : ¬0 < held + first := by omega
    have some : ¬held + first = 0 := by omega
    have whole : closedQty held (first + second) = first + closedQty (held + first) second := by
      unfold closedQty
      split_ifs <;> omega
    have part : closedQty held first = first := by
      unfold closedQty
      split_ifs <;> omega
    rw [if_neg still, if_neg some, whole, part]
    ring
  · have rest : closedQty (held + first) second = 0 := if_pos (by omega)
    have whole : closedQty held (first + second) = closedQty held first := by
      unfold closedQty
      split_ifs <;> omega
    rw [rest, whole]
    ring

end Split

/-- A fill that adds to nothing books the same whether it comes whole or in two parts. -/
theorem applyFill_split (position : Position) (event : OrderEvent) {first second : Int}
    (firstPos : 0 < first) (secondPos : 0 < second)
    (against : event.side.sign * position.netQty ≤ 0) :
    (position.applyFill .exact { event with fillQty := first }).applyFill .exact
        { event with fillQty := second } =
      position.applyFill .exact { event with fillQty := first + second } := by
  have held : event.side.sign *
      (position.applyFill .exact { event with fillQty := first }).netQty =
        event.side.sign * position.netQty + first :=
    sign_mul_netQty_applyFill { event with fillQty := first } position
  have net : ((position.applyFill .exact { event with fillQty := first }).applyFill .exact
      { event with fillQty := second }).netQty =
        (position.applyFill .exact { event with fillQty := first + second }).netQty := by
    simp only [netQty_applyFill, Arithmetic.exact_int64]
    ring
  have entry : ((position.applyFill .exact { event with fillQty := first }).applyFill .exact
      { event with fillQty := second }).avgEntryPrice =
        (position.applyFill .exact { event with fillQty := first + second }).avgEntryPrice := by
    rw [avgEntryPrice_applyFill, avgEntryPrice_applyFill, held, avgEntryPrice_applyFill]
    exact entryPrice_split _ _ against firstPos secondPos
  have realized : ((position.applyFill .exact { event with fillQty := first }).applyFill .exact
      { event with fillQty := second }).realizedPnl =
        (position.applyFill .exact { event with fillQty := first + second }).realizedPnl := by
    rw [realizedPnl_applyFill, realizedPnl_applyFill, held, realizedPnl_applyFill,
      avgEntryPrice_applyFill, add_assoc, ← mul_add]
    rw [closedQty_split _ _ against firstPos secondPos]
  ext : 1
  case netQty => exact net
  case avgEntryPrice => exact entry
  case realizedPnl => exact realized
  case unrealizedPnl =>
    rw [unrealizedPnl_applyFill, unrealizedPnl_applyFill]
    exact openProfit_congr (by simp) net entry
  case totalBuyQty =>
    simp only [totalBuyQty_applyFill, Arithmetic.exact]
    split <;> ring
  case totalSellQty =>
    simp only [totalSellQty_applyFill, Arithmetic.exact]
    split <;> ring
  case symbol => simp
  case lastPrice => simp
  case lastUpdatedSeq => simp

/-- Three shares short, and six bought: two that cover and four that cross. -/
theorem applyFill_split_crossing :
    let short := { zeroed (CharArray.zero 8) with netQty := -3, avgEntryPrice := 10 }
    let bought := { OrderEvent.zero with type := .fullFill, side := .buy, fillPrice := 12 }
    (short.applyFill .exact { bought with fillQty := 2 }).applyFill .exact
        { bought with fillQty := 4 } =
      short.applyFill .exact { bought with fillQty := 2 + 4 } :=
  applyFill_split { zeroed (CharArray.zero 8) with netQty := -3, avgEntryPrice := 10 }
    { OrderEvent.zero with type := .fullFill, side := .buy, fillPrice := 12 }
    (by decide) (by decide) (by decide)

end Position

end Hft
