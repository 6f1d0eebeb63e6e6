import Hft.Logical.SlotTable
import Mathlib.Data.List.Dedup

/-!
# Projecting an event stream onto a slot table

Events that each address one key, may open a slot for it and otherwise rewrite the slot
that is there. All keys share the table and its capacity, yet what one key's slot holds is
a fold over that key's own events: `find?_of_found` says so for every key that owns a
slot, `find?_foldl_of_room` for every key while the stream does not name more keys than
the table can hold.
-/

namespace Hft.Logical

namespace SlotTable

variable {α κ ε : Type} {key : α → κ} {capacity : Nat} [DecidableEq κ]

/-- What one event makes of the slot of the key it addresses. -/
def advance (opens : ε → Option α) (rewrite : ε → α → α) (slot : Option α) (event : ε) :
    Option α :=
  match slot with
  | some record => some (rewrite event record)
  | none => opens event

theorem foldl_advance_some (opens : ε → Option α) (rewrite : ε → α → α) (slot : α)
    (events : List ε) :
    events.foldl (advance opens rewrite) (some slot) =
      some (events.foldl (fun slot event => rewrite event slot) slot) := by
  induction events generalizing slot with
  | nil => rfl
  | cons event rest ih => exact ih (rewrite event slot)

/-- `apply` handles each event through the slot of its own key: a slot that is there is
rewritten, an absent one is opened if the event opens slots and one is free. -/
structure Projects (apply : SlotTable α key capacity → ε → SlotTable α key capacity)
    (on : ε → κ) (opens : ε → Option α) (rewrite : ε → α → α) : Prop where
  frame : ∀ {table event other}, other ≠ on event →
    (apply table event).find? other = table.find? other
  rewritten : ∀ {table event slot}, table.find? (on event) = some slot →
    (apply table event).find? (on event) = some (rewrite event slot)
  opened : ∀ {table event}, table.find? (on event) = none → table.slots.length < capacity →
    (apply table event).find? (on event) = opens event
  dropped : ∀ {table event}, table.find? (on event) = none → capacity ≤ table.slots.length →
    apply table event = table

namespace Projects

variable {apply : SlotTable α key capacity → ε → SlotTable α key capacity} {on : ε → κ}
  {opens : ε → Option α} {rewrite : ε → α → α}

/-- With a slot for its key or a free one, an event advances the slot of its key. -/
theorem find?_apply (projects : Projects apply on opens rewrite)
    {table : SlotTable α key capacity} {event : ε}
    (slot : table.find? (on event) ≠ none ∨ table.slots.length < capacity) :
    (apply table event).find? (on event) =
      advance opens rewrite (table.find? (on event)) event := by
  cases found : table.find? (on event) with
  | some record => exact projects.rewritten found
  | none =>
      rcases slot with present | room
      · exact absurd found present
      · exact projects.opened found room

/-- Events on other keys leave a slot alone. -/
theorem find?_foldl_of_unaddressed (projects : Projects apply on opens rewrite) {wanted : κ}
    {events : List ε} (unaddressed : ∀ event ∈ events, on event ≠ wanted)
    (table : SlotTable α key capacity) :
    (events.foldl apply table).find? wanted = table.find? wanted := by
  induction events generalizing table with
  | nil => rfl
  | cons event rest ih =>
      rw [List.foldl_cons, ih fun other member => unaddressed other (List.mem_cons_of_mem _ member)]
      exact projects.frame (Ne.symm (unaddressed event List.mem_cons_self))

/-- A slot after an event is one that was there under another key, or the advanced slot of
the event's own key. -/
theorem mem_apply (projects : Projects apply on opens rewrite) {table : SlotTable α key capacity}
    {event : ε} {slot : α} (member : slot ∈ (apply table event).slots) :
    (slot ∈ table.slots ∧ key slot ≠ on event) ∨
      (key slot = on event ∧
        advance opens rewrite (table.find? (on event)) event = some slot) := by
  have found : (apply table event).find? (key slot) = some slot :=
    find?_eq_some_iff.mpr ⟨member, rfl⟩
  by_cases own : key slot = on event
  · refine .inr ⟨own, ?_⟩
    rw [own] at found
    by_cases slotOrRoom : table.find? (on event) ≠ none ∨ table.slots.length < capacity
    · rw [← projects.find?_apply slotOrRoom, found]
    · rw [not_or, not_not, not_lt] at slotOrRoom
      rw [projects.dropped slotOrRoom.1 slotOrRoom.2, slotOrRoom.1] at found
      cases found
  · rw [projects.frame own] at found
    exact .inl ⟨(find?_eq_some_iff.mp found).1, own⟩

/-- A key that has a slot keeps it. -/
theorem keys_subset_apply (projects : Projects apply on opens rewrite)
    (table : SlotTable α key capacity) (event : ε) : table.keys ⊆ (apply table event).keys := by
  intro name member
  by_contra lost
  rw [← find?_eq_none_iff_keys] at lost
  by_cases own : name = on event
  · subst own
    cases found : table.find? (on event) with
    | none => exact find?_eq_none_iff_keys.mp found member
    | some slot =>
        rw [projects.rewritten found] at lost
        cases lost
  · rw [projects.frame own, find?_eq_none_iff_keys] at lost
    exact lost member

theorem keys_subset_foldl (projects : Projects apply on opens rewrite)
    (table : SlotTable α key capacity) (events : List ε) :
    table.keys ⊆ (events.foldl apply table).keys := by
  induction events generalizing table with
  | nil => exact List.Subset.refl _
  | cons event rest ih => exact List.Subset.trans (projects.keys_subset_apply table event) (ih _)

/-- A table never shrinks. -/
theorem length_le_foldl (projects : Projects apply on opens rewrite)
    (table : SlotTable α key capacity) (events : List ε) :
    table.slots.length ≤ (events.foldl apply table).slots.length := by
  rw [← length_keys, ← length_keys]
  exact (List.subperm_of_subset table.distinct (projects.keys_subset_foldl table events)).length_le

/-- A key without a slot in a full table never gets one. -/
theorem find?_foldl_of_full (projects : Projects apply on opens rewrite)
    {table : SlotTable α key capacity} {wanted : κ} (absent : table.find? wanted = none)
    (full : capacity ≤ table.slots.length) (events : List ε) :
    (events.foldl apply table).find? wanted = none := by
  induction events generalizing table with
  | nil => exact absent
  | cons event rest ih =>
      have stillFull := full.trans (projects.length_le_foldl table [event])
      refine ih ?_ stillFull
      by_cases own : wanted = on event
      · subst own
        rw [projects.dropped absent full]
        exact absent
      · rw [projects.frame own]
        exact absent

/-- A key that has no slot after an event that opens slots met a full table. -/
theorem full_of_absent (projects : Projects apply on opens rewrite)
    {table : SlotTable α key capacity} {events : List ε} {event : ε} (member : event ∈ events)
    (opening : (opens event).isSome)
    (absent : (events.foldl apply table).find? (on event) = none) :
    capacity ≤ (events.foldl apply table).slots.length := by
  induction events generalizing table with
  | nil => cases member
  | cons first rest ih =>
      rcases List.mem_cons.mp member with rfl | later
      · by_contra room
        have roomBefore : table.slots.length < capacity :=
          (projects.length_le_foldl table (event :: rest)).trans_lt (Nat.not_le.mp room)
        have opened : (apply table event).find? (on event) ≠ none := by
          rw [projects.find?_apply (.inr roomBefore)]
          cases table.find? (on event) with
          | none => exact Option.isSome_iff_ne_none.mp opening
          | some slot => exact Option.some_ne_none _
        rw [find?_eq_none_iff_keys] at absent
        rw [ne_eq, find?_eq_none_iff_keys, not_not] at opened
        exact absent (projects.keys_subset_foldl _ rest opened)
      · exact ih later absent

/-- A key that owns a slot in the end holds the fold of its own events, whatever the other
keys' events did in between. -/
theorem find?_of_found (projects : Projects apply on opens rewrite)
    {table : SlotTable α key capacity} {wanted : κ} {events : List ε} {slot : α}
    (found : (events.foldl apply table).find? wanted = some slot) :
    (events.filter fun event => on event = wanted).foldl (advance opens rewrite)
      (table.find? wanted) = some slot := by
  induction events generalizing table with
  | nil => exact found
  | cons event rest ih =>
      rw [List.foldl_cons] at found
      by_cases own : on event = wanted
      · subst own
        have slotOrRoom : table.find? (on event) ≠ none ∨ table.slots.length < capacity := by
          by_contra neither
          rw [not_or, not_not, not_lt] at neither
          rw [projects.dropped neither.1 neither.2,
            projects.find?_foldl_of_full neither.1 neither.2] at found
          cases found
        simp only [decide_true, List.filter_cons_of_pos, List.foldl_cons,
          ← projects.find?_apply slotOrRoom]
        exact ih found
      · have skipped : (apply table event).find? wanted = table.find? wanted :=
          projects.frame (Ne.symm own)
        rw [List.filter_cons_of_neg (by simpa using own), ← skipped]
        exact ih found

/-- An event gives a slot to no key but its own. -/
theorem mem_keys_apply (projects : Projects apply on opens rewrite)
    {table : SlotTable α key capacity} {event : ε} {name : κ}
    (member : name ∈ (apply table event).keys) : name ∈ table.keys ∨ name = on event := by
  by_contra neither
  rw [not_or, ← find?_eq_none_iff_keys] at neither
  obtain ⟨absent, differs⟩ := neither
  rw [← projects.frame differs, find?_eq_none_iff_keys] at absent
  exact absent member

/-- A stream gives slots to no keys but those it names. -/
theorem mem_keys_foldl (projects : Projects apply on opens rewrite)
    {table : SlotTable α key capacity} {events : List ε} {name : κ}
    (member : name ∈ (events.foldl apply table).keys) :
    name ∈ table.keys ∨ ∃ event ∈ events, name = on event := by
  induction events generalizing table with
  | nil => exact .inl member
  | cons event rest ih =>
      obtain before | ⟨later, inRest, same⟩ := ih member
      · exact (projects.mem_keys_apply before).imp_right
          fun same => ⟨event, List.mem_cons_self, same⟩
      · exact .inr ⟨later, List.mem_cons_of_mem _ inRest, same⟩

/-- While the stream names no more keys than the table can hold, no event is dropped. -/
theorem find?_foldl_of_room (projects : Projects apply on opens rewrite)
    {table : SlotTable α key capacity} {names : List κ} (few : names.dedup.length ≤ capacity)
    {events : List ε} (known : table.keys ⊆ names)
    (named : ∀ event ∈ events, on event ∈ names) (wanted : κ) :
    (events.foldl apply table).find? wanted =
      (events.filter fun event => on event = wanted).foldl (advance opens rewrite)
        (table.find? wanted) := by
  induction events generalizing table with
  | nil => rfl
  | cons event rest ih =>
      have inNames := named event List.mem_cons_self
      have slotOrRoom : table.find? (on event) ≠ none ∨ table.slots.length < capacity := by
        by_contra neither
        rw [not_or, not_not, not_lt, find?_eq_none_iff_keys] at neither
        -- A full table and one more name do not fit into the names.
        have nodup : (on event :: table.keys).Nodup := List.nodup_cons.mpr
          ⟨neither.1, table.distinct⟩
        have inside : on event :: table.keys ⊆ names.dedup := by
          intro name member
          rw [List.mem_dedup]
          rcases List.mem_cons.mp member with rfl | old
          · exact inNames
          · exact known old
        have fits := (List.subperm_of_subset nodup inside).length_le
        rw [List.length_cons, length_keys] at fits
        omega
      have stillKnown : (apply table event).keys ⊆ names := by
        intro name member
        rcases projects.mem_keys_apply member with old | rfl
        · exact known old
        · exact inNames
      rw [List.foldl_cons, ih stillKnown fun other member =>
        named other (List.mem_cons_of_mem _ member)]
      by_cases own : on event = wanted
      · subst own
        simp only [decide_true, List.filter_cons_of_pos, List.foldl_cons,
          projects.find?_apply slotOrRoom]
      · rw [List.filter_cons_of_neg (by simpa using own), projects.frame (Ne.symm own)]

end Projects

end SlotTable

end Hft.Logical
