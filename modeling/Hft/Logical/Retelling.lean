import Hft.Logical.Projection
import Mathlib.Data.List.Perm.Basic

/-!
# Streams that tell every key the same

Two event streams may differ in how they interleave the events of different keys, and in whatever
a table's slots are not read for. When each key has the same events in both, in the same order,
and the same keys won slots, a search finds the same on both sides: the tables are rearrangements
of each other (`Alike.perm`). No later event tells them apart (`Alike.of_event`).
-/

namespace Hft.Logical

/-- Of two neighbours of which a filter keeps at most one, it does not see which comes first. -/
theorem filter_swap {α : Type} {keeps : α → Bool} {before after : List α} {first second : α}
    (notBoth : ¬(keeps first = true ∧ keeps second = true)) :
    (before ++ first :: second :: after).filter keeps =
      (before ++ second :: first :: after).filter keeps := by
  rw [List.filter_append, List.filter_append]
  congr 1
  by_cases kept : keeps first = true
  · have dropped : ¬keeps second = true := fun both => notBoth ⟨kept, both⟩
    rw [List.filter_cons_of_pos kept, List.filter_cons_of_neg dropped,
      List.filter_cons_of_neg dropped, List.filter_cons_of_pos kept]
  · rw [List.filter_cons_of_neg kept]
    by_cases other : keeps second = true
    · rw [List.filter_cons_of_pos other, List.filter_cons_of_pos other,
        List.filter_cons_of_neg kept]
    · rw [List.filter_cons_of_neg other, List.filter_cons_of_neg other,
        List.filter_cons_of_neg kept]

namespace SlotTable

variable {α β κ ε δ : Type} {key : α → κ} {capacity : Nat} [DecidableEq κ]

/-- Every search finds the same on both sides, seen through `view`. -/
def Alike (view : α → β) (left right : SlotTable α key capacity) : Prop :=
  ∀ wanted, (left.find? wanted).map view = (right.find? wanted).map view

namespace Alike

variable {view : α → β} {left right : SlotTable α key capacity}

theorem find?_eq_none_iff (alike : left.Alike view right) (wanted : κ) :
    left.find? wanted = none ↔ right.find? wanted = none := by
  rw [← Option.map_eq_none_iff (f := view), alike wanted, Option.map_eq_none_iff]

/-- Each slot has a twin on the other side. -/
theorem exists_twin (alike : left.Alike view right) {slot : α} (member : slot ∈ left.slots) :
    ∃ twin ∈ right.slots, view twin = view slot := by
  have found := alike (key slot)
  rw [find?_eq_some_iff.mpr ⟨member, rfl⟩, Option.map_some, eq_comm] at found
  obtain ⟨twin, twinFound, same⟩ := Option.map_eq_some_iff.mp found
  exact ⟨twin, (find?_eq_some_iff.mp twinFound).1, same⟩

theorem symm (alike : left.Alike view right) : right.Alike view left := fun wanted =>
  (alike wanted).symm

section Perm

variable (seesKey : ∀ slot slot', view slot = view slot' → key slot = key slot')
include seesKey

omit [DecidableEq κ] in
theorem nodup_view (table : SlotTable α key capacity) : (table.slots.map view).Nodup := by
  refine (List.nodup_map_iff_inj_on table.distinct.of_map).mpr ?_
  intro slot member other otherMember same
  exact table.eq_of_key_eq member otherMember (seesKey slot other same)

/-- The slots are the same up to their order. -/
theorem perm (alike : left.Alike view right) :
    (left.slots.map view).Perm (right.slots.map view) := by
  refine (List.perm_ext_iff_of_nodup (nodup_view seesKey left) (nodup_view seesKey right)).mpr ?_
  intro seen
  constructor
  · intro member
    obtain ⟨slot, inLeft, rfl⟩ := List.mem_map.mp member
    obtain ⟨twin, inRight, same⟩ := alike.exists_twin inLeft
    exact List.mem_map.mpr ⟨twin, inRight, same⟩
  · intro member
    obtain ⟨slot, inRight, rfl⟩ := List.mem_map.mp member
    obtain ⟨twin, inLeft, same⟩ := alike.symm.exists_twin inRight
    exact List.mem_map.mpr ⟨twin, inLeft, same⟩

theorem length_eq (alike : left.Alike view right) : left.slots.length = right.slots.length := by
  simpa using (alike.perm seesKey).length_eq

end Perm

theorem update (alike : left.Alike view right) {wanted : κ} {write : α → α}
    (respects : ∀ slot slot', view slot = view slot' → view (write slot) = view (write slot'))
    (keeps : ∀ slot, key (write slot) = key slot) :
    (left.update wanted write keeps).Alike view (right.update wanted write keeps) := by
  intro name
  by_cases own : name = wanted
  · subst own
    have same := alike name
    cases found : left.find? name with
    | none =>
        have absent := (alike.find?_eq_none_iff name).mp found
        rw [update_of_absent keeps found, update_of_absent keeps absent, found, absent]
    | some slot =>
        rw [found, Option.map_some, eq_comm] at same
        obtain ⟨slot', found', equal⟩ := Option.map_eq_some_iff.mp same
        rw [find?_update_self keeps found, find?_update_self keeps found', Option.map_some,
          Option.map_some, respects slot slot' equal.symm]
  · rw [find?_update_of_ne keeps own, find?_update_of_ne keeps own, alike name]

end Alike

/-! ## Events that look the same -/

/-- What two events that look the same have in common: the key, what they open, and how they
rewrite slots that look the same. -/
structure Respects (on : ε → κ) (opens : ε → Option α) (rewrite : ε → α → α) (look : ε → δ)
    (view : α → β) : Prop where
  on : ∀ {event event'}, look event = look event' → on event = on event'
  opens : ∀ {event event'}, look event = look event' →
    (opens event).map view = (opens event').map view
  rewrite : ∀ {event event' slot slot'}, look event = look event' → view slot = view slot' →
    view (rewrite event slot) = view (rewrite event' slot')

variable {apply : SlotTable α key capacity → ε → SlotTable α key capacity} {on : ε → κ}
  {opens : ε → Option α} {rewrite : ε → α → α} {look : ε → δ} {view : α → β}

namespace Respects

omit [DecidableEq κ]

theorem advance (respects : Respects on opens rewrite look view) {event event' : ε}
    (sameEvent : look event = look event') {slot slot' : Option α}
    (sameSlot : slot.map view = slot'.map view) :
    (advance opens rewrite slot event).map view =
      (SlotTable.advance opens rewrite slot' event').map view := by
  cases slot with
  | none =>
      rw [Option.map_none, eq_comm, Option.map_eq_none_iff] at sameSlot
      subst sameSlot
      exact respects.opens sameEvent
  | some record =>
      rw [Option.map_some, eq_comm] at sameSlot
      obtain ⟨record', rfl, same⟩ := Option.map_eq_some_iff.mp sameSlot
      exact congrArg some (respects.rewrite sameEvent same.symm)

theorem foldl_advance (respects : Respects on opens rewrite look view) {events events' : List ε}
    (same : events.map look = events'.map look) {slot slot' : Option α}
    (sameSlot : slot.map view = slot'.map view) :
    (events.foldl (SlotTable.advance opens rewrite) slot).map view =
      (events'.foldl (SlotTable.advance opens rewrite) slot').map view := by
  induction events generalizing events' slot slot' with
  | nil =>
      rw [List.map_nil, eq_comm, List.map_eq_nil_iff] at same
      rw [same]
      exact sameSlot
  | cons event rest ih =>
      cases events' with
      | nil => cases same
      | cons event' rest' =>
          rw [List.map_cons, List.map_cons, List.cons.injEq] at same
          exact ih same.2 (respects.advance same.1 sameSlot)

end Respects

/-- No event tells tables apart that are alike, whether it finds a slot, takes one or is
dropped. -/
theorem Alike.of_event (projects : Projects apply on opens rewrite)
    (respects : Respects on opens rewrite look view)
    (seesKey : ∀ slot slot', view slot = view slot' → key slot = key slot')
    {left right : SlotTable α key capacity} (alike : left.Alike view right) {event event' : ε}
    (same : look event = look event') : (apply left event).Alike view (apply right event') := by
  have onSame := respects.on same
  have length := alike.length_eq seesKey
  have absent := alike.find?_eq_none_iff (on event)
  intro wanted
  by_cases own : wanted = on event
  · subst own
    by_cases slotOrRoom : left.find? (on event) ≠ none ∨ left.slots.length < capacity
    · have slotOrRoom' : right.find? (on event') ≠ none ∨ right.slots.length < capacity := by
        rwa [← onSame, ← length, ne_eq, ← absent]
      rw [projects.find?_apply slotOrRoom, onSame, projects.find?_apply slotOrRoom', ← onSame]
      exact respects.advance same (alike (on event))
    · rw [not_or, not_not, not_lt] at slotOrRoom
      obtain ⟨missing, full⟩ := slotOrRoom
      rw [projects.dropped missing full,
        projects.dropped (onSame ▸ absent.mp missing) (length ▸ full)]
      exact alike (on event)
  · rw [projects.frame own, projects.frame (onSame ▸ own)]
    exact alike wanted

/-- Two streams with the same events for every key, in which the same keys won slots, leave
alike tables. -/
theorem Projects.alike_foldl (projects : Projects apply on opens rewrite)
    (respects : Respects on opens rewrite look view) {table : SlotTable α key capacity}
    {events events' : List ε}
    (won : ∀ name, name ∈ (events.foldl apply table).keys ↔
      name ∈ (events'.foldl apply table).keys)
    (told : ∀ name ∈ (events.foldl apply table).keys,
      (events.filter fun event => on event = name).map look =
        (events'.filter fun event => on event = name).map look) :
    (events.foldl apply table).Alike view (events'.foldl apply table) := by
  intro wanted
  by_cases member : wanted ∈ (events.foldl apply table).keys
  · obtain ⟨slot, found⟩ := Option.ne_none_iff_exists'.mp
      (mt find?_eq_none_iff_keys.mp (not_not.mpr member))
    obtain ⟨slot', found'⟩ := Option.ne_none_iff_exists'.mp
      (mt find?_eq_none_iff_keys.mp (not_not.mpr ((won wanted).mp member)))
    rw [found, found', ← projects.find?_of_found found, ← projects.find?_of_found found']
    exact respects.foldl_advance (told wanted member) rfl
  · rw [find?_eq_none_iff_keys.mpr member, find?_eq_none_iff_keys.mpr (mt (won wanted).mpr member)]

end SlotTable

end Hft.Logical
