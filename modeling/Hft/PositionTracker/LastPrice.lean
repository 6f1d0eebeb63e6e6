import Hft.Logical.Prefixes
import Hft.PositionTracker.Calls

/-!
# The last price of a slot

A slot documents its last price as the most recent market price. A mark that finds the
position flat returns before it records anything, so the price kept is the one from before
the position was closed, and a position opened later is valued at it. The last price is
the latest mark exactly while no such mark brings a new price.
-/

namespace Hft

open Logical

namespace PositionTracker

/-- The price a call marks a symbol's slot at, if the symbol owns one. -/
def markMade (tracker : PositionTracker) (sym : StringView) : Call → Option Int
  | .applyEvent _ => none
  | .markToMarket other mktPriceFp =>
      if fieldKey other = fieldKey sym ∧ (tracker.get sym).isSome then some mktPriceFp else none

/-- The most recent mark of a symbol made since it owns a slot, or else `latest`. -/
def latestMarkFrom (arith : Arithmetic) (sym : StringView) :
    PositionTracker → Int → List Call → Int
  | _, latest, [] => latest
  | tracker, latest, call :: rest =>
      latestMarkFrom arith sym (tracker.perform arith call)
        ((tracker.markMade sym call).getD latest) rest

/-- The most recent mark of a symbol over a run, 0 if there is none. -/
def latestMark (arith : Arithmetic) (sym : StringView) (calls : List Call) : Int :=
  latestMarkFrom arith sym initial 0 calls

/-- Every slot shows the latest mark of its symbol. -/
def ShowsLatestMarks (arith : Arithmetic) (calls : List Call) : Prop :=
  ∀ sym position, (run arith calls).get sym = some position →
    position.lastPrice = latestMark arith sym calls

/-- A mark of a symbol that owns a slot with nothing in it repeats the slot's last price. -/
def RepeatsWhenFlat (tracker : PositionTracker) : Call → Prop
  | .applyEvent _ => True
  | .markToMarket sym mktPriceFp => ∀ position, tracker.get sym = some position →
      position.netQty = 0 → mktPriceFp = position.lastPrice

variable {arith : Arithmetic} {sym : StringView}

theorem latestMarkFrom_concat (tracker : PositionTracker) (latest : Int) (calls : List Call)
    (call : Call) :
    latestMarkFrom arith sym tracker latest (calls ++ [call]) =
      ((calls.foldl (perform arith) tracker).markMade sym call).getD
        (latestMarkFrom arith sym tracker latest calls) := by
  induction calls generalizing tracker latest with
  | nil => rfl
  | cons first rest ih => exact ih _ _

theorem latestMark_concat (calls : List Call) (call : Call) :
    latestMark arith sym (calls ++ [call]) =
      ((run arith calls).markMade sym call).getD (latestMark arith sym calls) :=
  latestMarkFrom_concat initial 0 calls call

theorem keys_subset_perform (tracker : PositionTracker) (call : Call) :
    tracker.keys ⊆ (tracker.perform arith call).keys := by
  cases call with
  | applyEvent event => exact (projects arith).keys_subset_apply tracker event
  | markToMarket sym mktPriceFp =>
      rw [perform, markToMarket, SlotTable.keys_update]
      exact List.Subset.refl _

/-- No marks are counted before the slot is there. -/
theorem latestMark_of_absent {calls : List Call} (absent : (run arith calls).get sym = none) :
    latestMark arith sym calls = 0 := by
  induction calls using List.reverseRecOn with
  | nil => rfl
  | append_singleton earlier call ih =>
      have before : (run arith earlier).get sym = none := by
        rw [get_eq_find?, SlotTable.find?_eq_none_iff_keys] at absent ⊢
        rw [run_concat] at absent
        exact fun member => absent (keys_subset_perform _ call member)
      have uncounted : (run arith earlier).markMade sym call = none := by
        cases call <;> simp [markMade, before]
      rw [latestMark_concat, uncounted, Option.getD_none, ih before]

/-- An event keeps the last price of a slot, and a slot it creates has none. -/
theorem lastPrice_get_applyEvent {tracker : PositionTracker} {event : OrderEvent}
    {position : Position} (found : (tracker.applyEvent arith event).get sym = some position) :
    position.lastPrice = ((tracker.get sym).map Position.lastPrice).getD 0 := by
  rw [get_eq_find?] at found ⊢
  obtain ⟨member, named⟩ := SlotTable.find?_eq_some_iff.mp found
  obtain ⟨old, _⟩ | ⟨own, written⟩ := (projects arith).mem_apply member
  · rw [SlotTable.find?_eq_some_iff.mpr ⟨old, named⟩]
    rfl
  · rw [own] at named
    rw [← named]
    cases before : tracker.find? event.symbol.string with
    | some slot =>
        rw [before] at written
        rw [← Option.some.inj written]
        unfold booked
        split <;> simp
    | none =>
        rw [before, SlotTable.advance, openedBy] at written
        split at written
        · rw [← Option.some.inj written, Position.lastPrice_applyFill]
          rfl
        · cases written

theorem get_markToMarket (tracker : PositionTracker) (other : StringView) (mktPriceFp : Int) :
    (tracker.markToMarket arith other mktPriceFp).get sym =
      if fieldKey other = fieldKey sym then (tracker.get sym).map (Position.mark arith mktPriceFp)
      else tracker.get sym := by
  have keeps := Position.key_mark arith mktPriceFp
  rw [get_eq_find?, get_eq_find?, markToMarket]
  split
  · rename_i same
    rw [same]
    cases found : tracker.find? (fieldKey sym) with
    | some position => exact SlotTable.find?_update_self keeps found
    | none =>
        rw [SlotTable.update_of_absent keeps found]
        exact found
  · rename_i differs
    exact SlotTable.find?_update_of_ne keeps (Ne.symm differs)

/-- One call keeps the last prices up to date unless it brings a flat slot a new price. -/
theorem showsLatestMarks_concat {calls : List Call} (shows : ShowsLatestMarks arith calls)
    (call : Call) :
    ShowsLatestMarks arith (calls ++ [call]) ↔ (run arith calls).RepeatsWhenFlat call := by
  cases call with
  | applyEvent event =>
      refine iff_of_true (fun sym position found => ?_) trivial
      rw [run_concat] at found
      rw [latestMark_concat, lastPrice_get_applyEvent found]
      cases before : (run arith calls).get sym with
      | some slot => exact shows sym slot before
      | none => exact (latestMark_of_absent before).symm
  | markToMarket other mktPriceFp =>
      constructor
      · intro after position found flat
        have kept : (run arith (calls ++ [.markToMarket other mktPriceFp])).get other =
            some position := by
          rw [run_concat, perform, get_markToMarket, if_pos rfl, found, Option.map_some,
            Position.mark, if_pos (by simpa [Position.isFlat] using flat)]
        rw [after other position kept, latestMark_concat]
        simp [markMade, found]
      · intro repeats sym position found
        rw [run_concat, perform, get_markToMarket] at found
        rw [latestMark_concat, markMade]
        split at found
        · rename_i same
          obtain ⟨before, had, rfl⟩ := Option.map_eq_some_iff.mp found
          rw [if_pos ⟨same, by rw [had]; rfl⟩, Option.getD_some, Position.mark]
          split
          · rename_i flat
            have hadOther : (run arith calls).get other = some before := by
              rwa [get_eq_find?, same, ← get_eq_find?]
            exact (repeats before hadOther (by simpa [Position.isFlat] using flat)).symm
          · rfl
        · rename_i differs
          rw [if_neg (fun both => differs both.1), Option.getD_none]
          exact shows sym position found

/-- The last prices are the latest marks in every state of a run exactly when every mark that
meets a flat slot repeats the price the slot has. -/
theorem lastPrice_latest_iff (calls : List Call) :
    (∀ earlier, earlier <+: calls → ShowsLatestMarks arith earlier) ↔
      ∀ earlier call, earlier ++ [call] <+: calls → (run arith earlier).RepeatsWhenFlat call := by
  have start : ShowsLatestMarks arith [] := fun sym position found =>
    absurd found (by simp [run, initial, get])
  exact forall_prefix_iff start (fun shows => showsLatestMarks_concat shows _) calls

/-- Ten bought at 5, marked at 8 and sold; the market goes to 20, where ten more are bought. -/
def reopenedCalls : List Call :=
  let sym := StringView.ofList (ascii "AAPL")
  let fill side price := makeFill sym side 10 price (StringView.ofList (ascii "O1")) false
  [.applyEvent (fill .buy 5), .markToMarket sym 8, .applyEvent (fill .sell 8),
    .markToMarket sym 20, .applyEvent (fill .buy 20)]

/-- The new position is valued at the price from before the old one was closed. -/
theorem reopened_at_stale_price : ¬∀ calls, ShowsLatestMarks .wrapping calls := by
  intro always
  have stale : ((run .wrapping reopenedCalls).get (StringView.ofList (ascii "AAPL"))).map
      Position.lastPrice = some 8 := by decide +kernel
  have latest : latestMark .wrapping (StringView.ofList (ascii "AAPL")) reopenedCalls = 20 := by
    decide +kernel
  obtain ⟨position, found, price⟩ := Option.map_eq_some_iff.mp stale
  have shown := always reopenedCalls _ position found
  rw [price, latest] at shown
  exact absurd shown (by decide)

end PositionTracker

end Hft
