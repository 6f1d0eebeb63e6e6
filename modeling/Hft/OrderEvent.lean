import Hft.Logical.CString

/-!
# Order events

The 64-byte record that the log stores and both projections consume. `symbol` and
`orderId` are raw 8-byte fields with no guaranteed terminator; what any reader
makes of them is their `string`. `fieldKey` is the part of a caller's
`string_view` that such a field, or a search for it, takes notice of.
-/

namespace Hft

open Logical

/-- `PRICE_SCALE`. -/
def priceScale : Int := 1000000

/-- `unset` is the zero byte of a value-initialised event and stands for every byte
that is no enumerator. -/
inductive EventType where
  | unset
  | newOrder
  | partialFill
  | fullFill
  | cancel
  | reject
  | amend
deriving DecidableEq, Repr

/-- `unset` is the zero byte of a value-initialised event and stands for every byte
that is no enumerator. The program only ever tests a side against `buy`. -/
inductive Side where
  | unset
  | buy
  | sell
deriving DecidableEq, Repr

/-- The sign a side gives to a quantity. -/
def Side.sign (side : Side) : Int := if side = .buy then 1 else -1

/-- Buy and sell exchanged. A byte that is no side counts as a sell, as everywhere. -/
def Side.opposite (side : Side) : Side := if side = .buy then .sell else .buy

theorem Side.sign_opposite (side : Side) : side.opposite.sign = -side.sign := by
  cases side <;> rfl

theorem Side.sign_eq (side : Side) : side.sign = 1 ∨ side.sign = -1 := by
  cases side <;> simp [Side.sign]

/-- Counting in the direction of a side and back changes nothing. -/
theorem Side.sign_mul_sign_mul (side : Side) (left right : Int) :
    side.sign * left * (side.sign * right) = left * right := by
  cases side <;> simp [Side.sign]

theorem Side.sign_mul_eq_zero_iff (side : Side) {value : Int} :
    side.sign * value = 0 ↔ value = 0 := by
  cases side <;> simp [Side.sign]

structure OrderEvent where
  sequence : Nat
  timestampNs : Nat
  price : Int
  fillPrice : Int
  qty : Int
  fillQty : Int
  symbol : CharArray 8
  orderId : CharArray 8
  type : EventType
  side : Side
deriving DecidableEq

/-- What an 8-byte field keeps of a view, and what `strncmp` over 8 bytes sees of it.
The length of the view is not consulted. -/
def fieldKey (view : StringView) : List UInt8 := text 8 view.data

namespace OrderEvent

/-- `OrderEvent e{}`. -/
def zero : OrderEvent where
  sequence := 0
  timestampNs := 0
  price := 0
  fillPrice := 0
  qty := 0
  fillQty := 0
  symbol := CharArray.zero 8
  orderId := CharArray.zero 8
  type := .unset
  side := .unset

def symbolView (event : OrderEvent) : StringView :=
  ⟨event.symbol.pointer, strnlen event.symbol.pointer 8⟩

def orderIdView (event : OrderEvent) : StringView :=
  ⟨event.orderId.pointer, strnlen event.orderId.pointer 8⟩

def isFill (event : OrderEvent) : Bool :=
  event.type = .partialFill || event.type = .fullFill

end OrderEvent

def makeFill (sym : StringView) (side : Side) (fqty fprice : Int) (oid : StringView)
    (isPartial : Bool) : OrderEvent :=
  { OrderEvent.zero with
    type := if isPartial then .partialFill else .fullFill
    side := side
    qty := fqty
    fillQty := fqty
    fillPrice := fprice
    symbol := strncpy sym.data 8
    orderId := strncpy oid.data 8 }

def makeNewOrder (sym : StringView) (side : Side) (qty priceFp : Int) (oid : StringView) :
    OrderEvent :=
  { OrderEvent.zero with
    type := .newOrder
    side := side
    qty := qty
    price := priceFp
    symbol := strncpy sym.data 8
    orderId := strncpy oid.data 8 }

end Hft
