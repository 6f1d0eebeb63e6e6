import Hft.PositionTracker.Direction
import Hft.Projections

/-!
# Where the entry price lies

The averaging division truncates toward zero at every fill that adds to a position, and a
fill that reverses one starts a new average halfway through. However often either happens,
the entry price is one that the fills on the position's own side could have had: it lies
between the lowest and the highest of their prices since the position was last opened.
-/

namespace Hft

open Logical

namespace PositionTracker

/-- The fills since a position was last opened from flat or reversed, after earlier ones that
left it at `net` with `since`. -/
def episodeFrom (net : Int) (since : List OrderEvent) : List OrderEvent → List OrderEvent
  | [] => since
  | fill :: rest =>
      let after := net + fill.side.sign * fill.fillQty
      -- A fill that leaves the position on the side it was on opens nothing.
      episodeFrom after (if 0 < net * after then since ++ [fill] else [fill]) rest

/-- The fills since the position was last opened from flat or reversed, with the fill that
did it. -/
def episode (fills : List OrderEvent) : List OrderEvent := episodeFrom 0 [] fills

/-- The fills on the side that a net quantity is on. -/
def ownSide (net : Int) (fills : List OrderEvent) : List OrderEvent :=
  fills.filter fun fill => 0 < fill.side.sign * net

theorem mem_ownSide_iff {net : Int} {fills : List OrderEvent} {fill : OrderEvent} :
    fill ∈ ownSide net fills ↔ fill ∈ fills ∧ 0 < fill.side.sign * net := by
  simp [ownSide]

/-- Quantities of one sign have the same own side. -/
theorem ownSide_congr {net after : Int} (same : 0 < net * after) (fills : List OrderEvent) :
    ownSide after fills = ownSide net fills := by
  apply List.filter_congr
  intro fill _
  obtain ⟨long, stillLong⟩ | ⟨short, stillShort⟩ := pos_and_pos_or_neg_and_neg_of_mul_pos same <;>
    obtain sign | sign := fill.side.sign_eq <;> rw [sign] <;> simp <;> omega

theorem episodeFrom_concat (net : Int) (since fills : List OrderEvent) (fill : OrderEvent) :
    episodeFrom net since (fills ++ [fill]) =
      if 0 < (net + signedTotal fills) * (net + signedTotal (fills ++ [fill])) then
        episodeFrom net since fills ++ [fill]
      else [fill] := by
  induction fills generalizing net since with
  | nil => simp [episodeFrom, signedTotal]
  | cons first rest ih =>
      rw [List.cons_append, episodeFrom, ih]
      simp only [signedTotal, List.map_cons, List.sum_cons, add_assoc]
      rfl

theorem episode_concat (fills : List OrderEvent) (fill : OrderEvent) :
    episode (fills ++ [fill]) =
      if 0 < signedTotal fills * signedTotal (fills ++ [fill]) then episode fills ++ [fill]
      else [fill] := by
  simpa [episode] using episodeFrom_concat 0 [] fills fill

/-- With exact integers the net quantity is the sum of the fills. -/
theorem netQty_foldFills_exact (sym : StringView) (fills : List OrderEvent) :
    (foldFills .exact sym fills).netQty = signedTotal fills := by
  rw [netQty_foldFills, signedSum_eq_signedTotal fun _ _ => rfl]

/-- A position's entry price is covered by the prices of some fills. -/
structure Covers (fills : List OrderEvent) (average : Int) : Prop where
  low : ∃ fill ∈ fills, fill.fillPrice ≤ average
  high : ∃ fill ∈ fills, average ≤ fill.fillPrice

namespace Covers

variable {fills more : List OrderEvent} {average : Int}

theorem mono (covers : Covers fills average) (subset : fills ⊆ more) : Covers more average where
  low := covers.low.imp fun _ both => ⟨subset both.1, both.2⟩
  high := covers.high.imp fun _ both => ⟨subset both.1, both.2⟩

theorem of_mem {fill : OrderEvent} (member : fill ∈ fills) : Covers fills fill.fillPrice :=
  ⟨⟨fill, member, le_rfl⟩, ⟨fill, member, le_rfl⟩⟩

/-- Averaging in the price of a fill stays between the prices. -/
theorem averaged (covers : Covers fills average) {fill : OrderEvent} (member : fill ∈ fills)
    {held qty : Int} (holds : 0 ≤ held) (positive : 0 < qty) :
    Covers fills (averaged average held fill.fillPrice qty) := by
  obtain ⟨low, lowMem, below⟩ := covers.low
  obtain ⟨high, highMem, above⟩ := covers.high
  constructor
  · by_cases cheaper : low.fillPrice ≤ fill.fillPrice
    · exact ⟨low, lowMem, le_averaged holds positive below cheaper⟩
    · exact ⟨fill, member, le_averaged holds positive (by omega) le_rfl⟩
  · by_cases dearer : fill.fillPrice ≤ high.fillPrice
    · exact ⟨high, highMem, averaged_le holds positive above dearer⟩
    · exact ⟨fill, member, averaged_le holds positive (by omega) le_rfl⟩

end Covers

/-- The entry price of a position after its fills. -/
structure Priced (position : Position) (fills : List OrderEvent) : Prop where
  flat : position.netQty = 0 → position.avgEntryPrice = 0
  held : position.netQty ≠ 0 →
    Covers (ownSide position.netQty (episode fills)) position.avgEntryPrice

theorem Priced.applyFill {position : Position} {fills : List OrderEvent} {fill : OrderEvent}
    (positive : 0 < fill.fillQty) (net : position.netQty = signedTotal fills)
    (priced : Priced position fills) :
    Priced (position.applyFill .exact fill) (fills ++ [fill]) := by
  have after : (position.applyFill .exact fill).netQty = signedTotal (fills ++ [fill]) := by
    rw [Position.netQty_applyFill, Arithmetic.exact_int64, net, signedTotal_concat]
  have moved := Position.sign_mul_netQty_applyFill fill position
  have entry := Position.avgEntryPrice_applyFill fill position
  have since := episode_concat fills fill
  rw [← net, ← after] at since
  have product : position.netQty * (position.applyFill .exact fill).netQty =
      fill.side.sign * position.netQty * (fill.side.sign * position.netQty + fill.fillQty) := by
    rw [← moved, fill.side.sign_mul_sign_mul]
  have flat_iff := @Side.sign_mul_eq_zero_iff fill.side (position.applyFill .exact fill).netQty
  have held_iff := @Side.sign_mul_eq_zero_iff fill.side position.netQty
  rw [moved] at flat_iff
  generalize position.applyFill .exact fill = booked at *
  have kept : ownSide position.netQty (episode fills) ⊆
      ownSide position.netQty (episode fills ++ [fill]) := by
    rw [ownSide, ownSide, List.filter_append]
    exact List.subset_append_left _ _
  rcases lt_or_ge 0 (fill.side.sign * position.netQty) with along | against
  · -- The fill adds to the position.
    have same : 0 < position.netQty * booked.netQty := by
      rw [product]
      exact mul_pos along (by omega)
    have own : fill ∈ ownSide position.netQty (episode fills ++ [fill]) :=
      mem_ownSide_iff.mpr ⟨by simp, along⟩
    rw [Position.entryPrice, if_pos along.le, if_pos (by omega)] at entry
    refine ⟨fun flat => absurd (flat_iff.mpr flat) (by omega), fun _ => ?_⟩
    rw [since, if_pos same, ownSide_congr same, entry]
    have before := priced.held fun flat => absurd (held_iff.mpr flat) (by omega)
    exact (before.mono kept).averaged own along.le positive
  · rw [Position.entryPrice_against _ _ against positive] at entry
    rcases lt_trichotomy (fill.side.sign * position.netQty + fill.fillQty) 0 with
      reduced | closed | opened
    · have same : 0 < position.netQty * booked.netQty := by
        rw [product]
        exact mul_pos_of_neg_of_neg (by omega) reduced
      rw [if_neg (by omega), if_neg (by omega)] at entry
      refine ⟨fun flat => absurd (flat_iff.mpr flat) (by omega), fun _ => ?_⟩
      rw [since, if_pos same, ownSide_congr same, entry]
      exact (priced.held fun flat => absurd (held_iff.mpr flat) (by omega)).mono kept
    · rw [if_neg (by omega), if_pos closed] at entry
      exact ⟨fun _ => entry, fun holds => absurd (flat_iff.mp closed) holds⟩
    · have notSame : ¬0 < position.netQty * booked.netQty := by
        rw [product, not_lt]
        exact mul_nonpos_of_nonpos_of_nonneg against opened.le
      have own : fill ∈ ownSide booked.netQty [fill] :=
        mem_ownSide_iff.mpr ⟨by simp, by rwa [moved]⟩
      rw [if_pos opened] at entry
      refine ⟨fun flat => absurd (flat_iff.mpr flat) (by omega), fun _ => ?_⟩
      rw [since, if_neg notSame, entry]
      exact Covers.of_mem own

theorem priced_foldFills (sym : StringView) {fills : List OrderEvent}
    (positive : ∀ fill ∈ fills, 0 < fill.fillQty) :
    Priced (foldFills .exact sym fills) fills := by
  induction fills using List.reverseRecOn with
  | nil => exact ⟨fun _ => rfl, fun held => absurd rfl held⟩
  | append_singleton earlier fill ih =>
      have before := ih fun other member => positive other (List.mem_append_left _ member)
      have last := positive fill (List.mem_append_right _ List.mem_cons_self)
      rw [foldFills_concat]
      exact before.applyFill last (netQty_foldFills_exact sym earlier)

/-- After any sequence of positive fills, a position that is not flat is entered at a price
between the lowest and the highest of its own side since it was opened. -/
theorem entryPrice_within {events : List OrderEvent}
    (positive : ∀ event ∈ events, event.isFill = true → 0 < event.fillQty) {sym : StringView}
    {position : Position} (found : (project .exact events).get sym = some position) :
    (position.netQty = 0 → position.avgEntryPrice = 0) ∧
      (position.netQty ≠ 0 →
        (∃ low ∈ ownSide position.netQty (episode (fillsOf sym events)),
          low.fillPrice ≤ position.avgEntryPrice) ∧
        ∃ high ∈ ownSide position.netQty (episode (fillsOf sym events)),
          position.avgEntryPrice ≤ high.fillPrice) := by
  have own : ∀ fill ∈ fillsOf sym events, 0 < fill.fillQty :=
    fun fill member => fillQty_pos_of_mem_fillsOf positive member
  have priced := priced_foldFills sym own
  rw [← eq_foldFills_of_get found] at priced
  exact ⟨priced.flat, fun held => ⟨(priced.held held).low, (priced.held held).high⟩⟩

/-- Six bought at 10 and 11, and eight sold at 12. -/
def reversingFills : List OrderEvent :=
  let fill side qty price := makeFill (StringView.ofList (ascii "AAPL")) side qty price
    (StringView.ofList (ascii "O1")) false
  [fill .buy 3 10, fill .buy 3 11, fill .sell 8 12]

/-- The two that are short after them are entered at the price of the last fill. -/
theorem entryPrice_within_reversed :
    ∃ position, (project .exact reversingFills).get (StringView.ofList (ascii "AAPL")) =
        some position ∧ position.netQty = -2 ∧
      (∃ low ∈ ownSide position.netQty
          (episode (fillsOf (StringView.ofList (ascii "AAPL")) reversingFills)),
        low.fillPrice ≤ position.avgEntryPrice) ∧
      ∃ high ∈ ownSide position.netQty
          (episode (fillsOf (StringView.ofList (ascii "AAPL")) reversingFills)),
        position.avgEntryPrice ≤ high.fillPrice := by
  have short : ((project .exact reversingFills).get (StringView.ofList (ascii "AAPL"))).map
      Position.netQty = some (-2) := by decide +kernel
  obtain ⟨position, found, net⟩ := Option.map_eq_some_iff.mp short
  have positive : ∀ event ∈ reversingFills, event.isFill = true → 0 < event.fillQty := by decide
  have within := (entryPrice_within positive found).2 (by rw [net]; decide)
  exact ⟨position, found, net, within⟩

end PositionTracker

end Hft
