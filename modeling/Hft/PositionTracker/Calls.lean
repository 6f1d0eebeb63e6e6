import Hft.PositionTracker.Direction
import Hft.Projections

/-!
# Fills and marks interleaved

A tracker changes by two kinds of calls: events from the log, and market prices from
whoever watches the market. The two arrive independently, and a run is any sequence of
them. Over every run each slot carries the unrealized profit that its own fields imply,
and exchanging the sides of all fills mirrors the whole tracker.
-/

namespace Hft

open Logical

namespace Position

/-- A mark at a positive price revalues the position, and a flat one has nothing to value. -/
theorem unrealizedPnl_mark {position : Position} {mktPriceFp : Int}
    (positive : 0 < mktPriceFp) (valued : position.unrealizedPnl = position.openProfit) :
    (position.mark .exact mktPriceFp).unrealizedPnl =
      (position.mark .exact mktPriceFp).openProfit := by
  unfold mark
  by_cases flat : position.isFlat = true
  · rw [if_pos flat]
    exact valued
  · have held : position.netQty ≠ 0 := by simpa [isFlat] using flat
    rw [if_neg flat, openProfit, if_pos ⟨positive, held⟩]
    rfl

theorem mirrored_mark (mktPriceFp : Int) (position : Position) :
    position.mirrored.mark .exact mktPriceFp = (position.mark .exact mktPriceFp).mirrored := by
  have flat : position.mirrored.isFlat = position.isFlat := by simp [isFlat, mirrored]
  unfold mark
  rw [flat]
  split
  · rfl
  · simp [mirrored]

end Position

namespace PositionTracker

/-- A call that may change a tracker. -/
inductive Call where
  | applyEvent (event : OrderEvent)
  | markToMarket (sym : StringView) (mktPriceFp : Int)

def perform (arith : Arithmetic) (tracker : PositionTracker) : Call → PositionTracker
  | .applyEvent event => tracker.applyEvent arith event
  | .markToMarket sym mktPriceFp => tracker.markToMarket arith sym mktPriceFp

/-- A new tracker after a sequence of calls. -/
def run (arith : Arithmetic) (calls : List Call) : PositionTracker :=
  calls.foldl (perform arith) initial

theorem run_concat (arith : Arithmetic) (calls : List Call) (call : Call) :
    run arith (calls ++ [call]) = (run arith calls).perform arith call := by
  rw [run, List.foldl_append]
  rfl

/-- A slot after a mark is one from before, marked or not. -/
theorem mem_markToMarket {arith : Arithmetic} {tracker : PositionTracker} {sym : StringView}
    {mktPriceFp : Int} {position : Position}
    (member : position ∈ (tracker.markToMarket arith sym mktPriceFp).slots) :
    position ∈ tracker.slots ∨
      ∃ before ∈ tracker.slots, position = before.mark arith mktPriceFp := by
  obtain ⟨before, inTable, rfl⟩ := (SlotTable.mem_update _ _).mp member
  split
  · exact .inr ⟨before, inTable, rfl⟩
  · exact .inl inTable

/-! ## The unrealized profit -/

/-- Over every run with positive marks, each slot is valued at its own last price and entry
price. -/
theorem unrealizedPnl_run (calls : List Call)
    (positive : ∀ sym mktPriceFp, .markToMarket sym mktPriceFp ∈ calls → 0 < mktPriceFp) :
    ∀ position ∈ (run .exact calls).slots, position.unrealizedPnl =
      if 0 < position.lastPrice ∧ position.netQty ≠ 0 then
        (position.lastPrice - position.avgEntryPrice) * position.netQty
      else 0 := by
  induction calls using List.reverseRecOn with
  | nil => exact fun _ member => absurd member List.not_mem_nil
  | append_singleton earlier call ih =>
      have valued := ih fun sym mktPriceFp member =>
        positive sym mktPriceFp (List.mem_append_left _ member)
      intro position member
      rw [run_concat] at member
      cases call with
      | applyEvent event =>
          obtain before | ⟨_, before, _, rfl⟩ := mem_applyEvent member
          · exact valued position before
          · exact Position.unrealizedPnl_applyFill event before
      | markToMarket sym mktPriceFp =>
          obtain before | ⟨before, inTable, rfl⟩ := mem_markToMarket member
          · exact valued position before
          · have paid := positive sym mktPriceFp (List.mem_append_right _ List.mem_cons_self)
            exact Position.unrealizedPnl_mark paid (valued before inTable)

/-- Ten bought at 5 and marked at 8. -/
def markedCalls : List Call :=
  let sym := StringView.ofList (ascii "AAPL")
  [.applyEvent (makeFill sym .buy 10 5 (StringView.ofList (ascii "O1")) false),
    .markToMarket sym 8]

/-- They show a gain of 30. -/
theorem unrealizedPnl_run_marked :
    ∃ position ∈ (run .exact markedCalls).slots,
      position.unrealizedPnl = (position.lastPrice - position.avgEntryPrice) * position.netQty ∧
        position.unrealizedPnl = 30 := by
  have positive : ∀ sym mktPriceFp, .markToMarket sym mktPriceFp ∈ markedCalls →
      0 < mktPriceFp := by
    intro sym mktPriceFp member
    simp only [markedCalls, List.mem_cons, Call.markToMarket.injEq, reduceCtorEq, false_or,
      List.not_mem_nil, or_false] at member
    omega
  have held : ∃ position ∈ (run .exact markedCalls).slots, (0 < position.lastPrice ∧
      position.netQty ≠ 0) ∧ position.unrealizedPnl = 30 := by decide +kernel
  obtain ⟨position, member, priced, gain⟩ := held
  have valued := unrealizedPnl_run markedCalls positive position member
  rw [if_pos priced] at valued
  exact ⟨position, member, valued, gain⟩

/-! ## Exchanging the sides -/

/-- The same call with buy and sell exchanged. -/
def Call.mirrored : Call → Call
  | .applyEvent event => .applyEvent event.mirrored
  | .markToMarket sym mktPriceFp => .markToMarket sym mktPriceFp

/-- Every position mirrored. -/
def mirrored (tracker : PositionTracker) : PositionTracker :=
  tracker.mapSlots Position.mirrored Position.key_mirrored

theorem mirrored_perform (tracker : PositionTracker) (call : Call) :
    tracker.mirrored.perform .exact call.mirrored = (tracker.perform .exact call).mirrored := by
  cases call with
  | applyEvent event =>
      have sameFill : event.mirrored.isFill = event.isFill := rfl
      simp only [Call.mirrored, perform, applyEvent, sameFill]
      split
      · have record : Position.applyFill .exact event.mirrored
            (Position.zeroed (strncpy event.symbolView.data 8)) =
              (Position.applyFill .exact event
                (Position.zeroed (strncpy event.symbolView.data 8))).mirrored :=
          Position.mirrored_applyFill event (Position.zeroed _)
        have booked := SlotTable.upsert_mapSlots tracker Position.key_mirrored
          (Position.key_applyFill .exact event) (Position.key_applyFill .exact event.mirrored)
          (Position.mirrored_applyFill event)
          (Position.applyFill .exact event (Position.zeroed (strncpy event.symbolView.data 8)))
        rw [← record] at booked
        exact booked
      · rfl
  | markToMarket sym mktPriceFp =>
      have keeps := Position.key_mark .exact mktPriceFp
      exact SlotTable.update_mapSlots tracker Position.key_mirrored keeps keeps
        (Position.mirrored_mark mktPriceFp) (fieldKey sym)

/-- Long and short are treated alike, to the last rounded digit. -/
theorem mirrored_run (calls : List Call) (sym : StringView) :
    (run .exact (calls.map Call.mirrored)).get sym =
      ((run .exact calls).get sym).map Position.mirrored := by
  have whole : run .exact (calls.map Call.mirrored) = (run .exact calls).mirrored := by
    induction calls using List.reverseRecOn with
    | nil => rfl
    | append_singleton earlier call ih =>
        rw [List.map_append, List.map_singleton, run_concat, ih, mirrored_perform, run_concat]
  rw [whole, get_eq_find?, get_eq_find?]
  exact SlotTable.find?_mapSlots _ _ _

end PositionTracker

end Hft
