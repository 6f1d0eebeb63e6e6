import Hft.Gateway.Session

/-!
# Sends that do not reach the session

`send_order` can end without a message on its way: not connected, refused by the
risk check, stopped by a full log, or with no session behind `sendToTarget`. The
first three leave before the manager is told of the order, the last one after it.
`SameBooks` is what a caller expects to find when the call reports a failure.
-/

namespace Hft.Gateway

open Logical

namespace FIXGateway

/-- The books a failed call should have left alone. -/
structure SameBooks (arith : Arithmetic) (before after : FIXGateway) : Prop where
  openOrders : ∀ order, order ∈ after.orders.openOrders ↔ order ∈ before.orders.openOrders
  exposure : ∀ sym, after.orders.openExposure arith sym = before.orders.openExposure arith sym
  tracker : after.tracker = before.tracker

/-- The call returned the empty id or was left by an exception. -/
def SendFailed (outcome : SendOutcome) : Prop :=
  outcome.result = .ok [] ∨ ∃ thrown, outcome.result = .error thrown

/-- The manager would not take the order: no slot is left for its id, or the slot of
that id already holds this very order. -/
def Unrecorded (gateway : FIXGateway) (args : SendArgs) : Prop :=
  match gateway.orders.find? (gateway.newOrderEvent args).orderId.string with
  | none => maxOrders ≤ gateway.orders.orderCount
  | some order => Order.opened order.orderId (gateway.newOrderEvent args) = order

instance (gateway : FIXGateway) (args : SendArgs) : Decidable (gateway.Unrecorded args) :=
  match found : gateway.orders.find? (gateway.newOrderEvent args).orderId.string with
  | none =>
      decidable_of_iff (maxOrders ≤ gateway.orders.orderCount) (by simp [Unrecorded, found])
  | some order =>
      decidable_of_iff (Order.opened order.orderId (gateway.newOrderEvent args) = order)
        (by simp [Unrecorded, found])

variable {arith : Arithmetic} {gateway : FIXGateway} {args : SendArgs}

theorem SameBooks.refl (arith : Arithmetic) (gateway : FIXGateway) :
    SameBooks arith gateway gateway := ⟨fun _ => Iff.rfl, fun _ => rfl, rfl⟩

variable (arith) in
/-- An order the manager does not take leaves its table as it is. -/
theorem applyEvent_of_unrecorded (unrecorded : gateway.Unrecorded args) :
    gateway.orders.applyEvent arith (gateway.newOrderEvent args) = gateway.orders := by
  have keyed := OrderManager.key_opened_strncpy (gateway.newOrderEvent args)
  unfold Unrecorded at unrecorded
  rw [OrderManager.applyEvent_of_newOrder arith _ rfl, OrderManager.handleNew]
  cases found : gateway.orders.find? (gateway.newOrderEvent args).orderId.string with
  | none =>
      rw [found] at unrecorded
      exact SlotTable.upsert_of_full _ (by rwa [keyed]) unrecorded
  | some order =>
      rw [found] at unrecorded
      obtain ⟨member, hit⟩ := SlotTable.find?_eq_some_iff.mp found
      have foundKey : gateway.orders.find? (Order.opened
          (strncpy (gateway.newOrderEvent args).orderIdView.data 8)
          (gateway.newOrderEvent args)).key = some order := by rwa [keyed]
      rw [SlotTable.upsert_of_found _ foundKey, keyed]
      apply SlotTable.ext
      apply (List.map_congr_left _).trans (List.map_id _)
      intro slot slotMem
      split
      · rename_i same
        rw [gateway.orders.eq_of_key_eq slotMem member (same.trans hit.symm)]
        exact unrecorded
      · rfl

variable (arith) in
/-- An order the manager takes is an open order that was not there before. -/
theorem exists_openOrder_of_recorded (recorded : ¬gateway.Unrecorded args) :
    ∃ order, order ∈ (gateway.orders.applyEvent arith (gateway.newOrderEvent args)).openOrders ∧
      order ∉ gateway.orders.openOrders := by
  have keyed := OrderManager.key_opened_strncpy (gateway.newOrderEvent args)
  unfold Unrecorded at recorded
  cases found : gateway.orders.find? (gateway.newOrderEvent args).orderId.string with
  | none =>
      rw [found] at recorded
      have absent : gateway.orders.find? (Order.opened
          (strncpy (gateway.newOrderEvent args).orderIdView.data 8)
          (gateway.newOrderEvent args)).key = none := by rwa [keyed]
      refine ⟨_, List.mem_filter.mpr ⟨?_, rfl⟩, fun member =>
        SlotTable.find?_eq_none_iff.mp absent _ (List.mem_filter.mp member).1 rfl⟩
      rw [OrderManager.applyEvent_of_newOrder arith _ rfl, OrderManager.handleNew,
        SlotTable.slots_upsert_of_room _ absent (Nat.not_le.mp recorded)]
      exact List.mem_append_right _ (List.mem_singleton_self _)
  | some order =>
      rw [found] at recorded
      have rewritten := OrderManager.find?_applyEvent_self arith gateway.orders found
      obtain ⟨member, hit⟩ := SlotTable.find?_eq_some_iff.mp found
      obtain ⟨after, afterHit⟩ := SlotTable.find?_eq_some_iff.mp rewritten
      refine ⟨_, List.mem_filter.mpr ⟨after, rfl⟩, fun before => recorded ?_⟩
      -- One id has one slot, so an order found there before is the one rewritten.
      exact gateway.orders.eq_of_key_eq (List.mem_filter.mp before).1 member
        (afterHit.trans hit.symm)

/-- A `send_order` that fails leaves the books alone unless it came as far as
`sendToTarget` with an order that the manager had taken. -/
theorem sendOrder_failed_sameBooks_iff (arith : Arithmetic) (gateway : FIXGateway)
    (args : SendArgs) (now : Nat) (sessionFound : Bool) :
    (SendFailed (gateway.sendOrder arith args now sessionFound) →
      SameBooks arith gateway (gateway.sendOrder arith args now sessionFound).gateway) ↔
    sessionFound = true ∨ ¬gateway.Accepts arith args ∨ maxEvents ≤ gateway.log.size ∨
      gateway.Unrecorded args := by
  obtain ⟨refused, same⟩ | ⟨accepted, full, same⟩ | ⟨log, accepted, room, events, same⟩ :=
    sendOrder_cases arith gateway args now sessionFound
  · rw [same]
    exact iff_of_true (fun _ => .refl arith gateway) (.inr (.inl refused))
  · rw [same]
    exact iff_of_true (fun _ => ⟨fun _ => Iff.rfl, fun _ => rfl, rfl⟩) (.inr (.inr (.inl full)))
  · rw [same]
    cases sessionFound with
    | true =>
        have assigned : orderId gateway.orderCounter ≠ [] := by simp [orderId, ascii]
        refine iff_of_true ?_ (.inl rfl)
        rintro (empty | ⟨thrown, error⟩)
        · exact absurd (Except.ok.inj empty) assigned
        · cases error
    | false =>
        constructor
        · intro kept
          by_contra reached
          obtain ⟨_, _, _, recorded⟩ : false ≠ true ∧ gateway.Accepts arith args ∧
              gateway.log.size < maxEvents ∧ ¬gateway.Unrecorded args := by
            simpa using reached
          obtain ⟨order, after, before⟩ := exists_openOrder_of_recorded arith recorded
          exact before (((kept (.inr ⟨_, rfl⟩)).openOrders order).mp after)
        · rintro (impossible | refused | full | unrecorded) _
          · cases impossible
          · exact absurd accepted refused
          · exact absurd room (Nat.not_lt.mpr full)
          · have sameTable := applyEvent_of_unrecorded arith unrecorded
            refine ⟨fun order => ?_, fun sym => ?_, rfl⟩
            · rw [sameTable]
            · rw [sameTable]

/-- An order for which no session is found stays open. -/
theorem failed_send_leaves_open_order :
    ¬∀ (arith : Arithmetic) (gateway : FIXGateway) (args : SendArgs) (now : Nat)
      (sessionFound : Bool), SendFailed (gateway.sendOrder arith args now sessionFound) →
      SameBooks arith gateway (gateway.sendOrder arith args now sessionFound).gateway := by
  intro always
  have kept := always .wrapping connectedGateway sampleArgs 0 false (.inr ⟨.sessionNotFound, rfl⟩)
  have before : connectedGateway.orders.openExposure .wrapping sampleArgs.symbol = 0 := by decide
  have after : (connectedGateway.sendOrder .wrapping sampleArgs 0 false).gateway.orders.openExposure
      .wrapping sampleArgs.symbol = 1 := by decide
  have same := kept.exposure sampleArgs.symbol
  rw [before, after] at same
  cases same

end FIXGateway

end Hft.Gateway
