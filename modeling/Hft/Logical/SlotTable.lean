import Mathlib.Algebra.BigOperators.Group.List.Basic
import Mathlib.Data.List.Nodup
import Mathlib.Tactic.Ring

/-!
# Flat slot tables

A table of records kept in the order in which their keys first appeared, searched
linearly, never shrunk, and never larger than `capacity`. Key uniqueness and the
bound are fields, so every operation below proves that it keeps them and no client
does. `update` writes through the slot a search returned; `upsert` is the
"find or create, then write" pattern, silent when the table is full.
-/

namespace Hft.Logical

/-- A bounded list of records with pairwise different keys. -/
@[ext]
structure SlotTable (α : Type) {κ : Type} (key : α → κ) (capacity : Nat) where
  slots : List α
  distinct : (slots.map key).Nodup
  bounded : slots.length ≤ capacity

namespace SlotTable

variable {α κ : Type} {key : α → κ} {capacity : Nat}

instance [DecidableEq α] : DecidableEq (SlotTable α key capacity) := fun left right =>
  decidable_of_iff (left.slots = right.slots) SlotTable.ext_iff.symm

/-- No slot is in use. -/
def empty : SlotTable α key capacity := ⟨[], List.nodup_nil, Nat.zero_le _⟩

@[simp] theorem slots_empty : (empty : SlotTable α key capacity).slots = [] := rfl

/-- The keys in slot order. -/
def keys (table : SlotTable α key capacity) : List κ := table.slots.map key

theorem length_keys (table : SlotTable α key capacity) :
    table.keys.length = table.slots.length := List.length_map _

/-- Two slots of one table with the same key are the same slot. -/
theorem eq_of_key_eq (table : SlotTable α key capacity) {left right : α}
    (leftMem : left ∈ table.slots) (rightMem : right ∈ table.slots)
    (same : key left = key right) : left = right :=
  List.inj_on_of_nodup_map table.distinct leftMem rightMem same

/-- Tables with the same keys hold a twin of each other's slots. -/
theorem exists_twin {table other : SlotTable α key capacity} (same : table.keys = other.keys)
    {slot : α} (member : slot ∈ table.slots) : ∃ twin ∈ other.slots, key twin = key slot := by
  have inKeys : key slot ∈ table.keys := List.mem_map_of_mem member
  rw [same] at inKeys
  exact List.mem_map.mp inKeys

/-- A table whose slots all have one key has at most one slot. -/
theorem length_le_one (table : SlotTable α key capacity) {name : κ}
    (same : ∀ slot ∈ table.slots, key slot = name) : table.slots.length ≤ 1 := by
  have inside : table.keys ⊆ [name] := by
    intro slotKey member
    obtain ⟨slot, inTable, rfl⟩ := List.mem_map.mp member
    exact List.mem_singleton.mpr (same slot inTable)
  rw [← length_keys]
  exact (List.subperm_of_subset table.distinct inside).length_le

variable [DecidableEq κ]

/-- Linear search. -/
def find? (table : SlotTable α key capacity) (wanted : κ) : Option α :=
  table.slots.find? fun slot => key slot = wanted

/-- A search finds exactly the slot that holds the key. -/
theorem find?_eq_some_iff {table : SlotTable α key capacity} {wanted : κ} {slot : α} :
    table.find? wanted = some slot ↔ slot ∈ table.slots ∧ key slot = wanted := by
  constructor
  · intro found
    exact ⟨List.mem_of_find?_eq_some found, by simpa using List.find?_some found⟩
  · rintro ⟨member, rfl⟩
    cases result : table.find? (key slot) with
    | none => simp [find?, List.find?_eq_none] at result; exact absurd rfl (result slot member)
    | some other =>
        have otherKey : key other = key slot := by simpa using List.find?_some result
        rw [table.eq_of_key_eq (List.mem_of_find?_eq_some result) member otherKey]

theorem find?_eq_none_iff {table : SlotTable α key capacity} {wanted : κ} :
    table.find? wanted = none ↔ ∀ slot ∈ table.slots, key slot ≠ wanted := by
  simp [find?, List.find?_eq_none]

theorem find?_eq_none_iff_keys {table : SlotTable α key capacity} {wanted : κ} :
    table.find? wanted = none ↔ wanted ∉ table.keys := by
  simp [find?_eq_none_iff, keys]

theorem mem_keys_of_find? {table : SlotTable α key capacity} {wanted : κ} {slot : α}
    (found : table.find? wanted = some slot) : wanted ∈ table.keys := by
  obtain ⟨member, hit⟩ := find?_eq_some_iff.mp found
  exact hit ▸ List.mem_map_of_mem member

/-! ## Writing through a found slot -/

/-- Rewrite the slot that holds `wanted`; nothing happens when there is none. -/
def update (table : SlotTable α key capacity) (wanted : κ) (write : α → α)
    (keeps : ∀ slot, key (write slot) = key slot) : SlotTable α key capacity where
  slots := table.slots.map fun slot => if key slot = wanted then write slot else slot
  distinct := by
    have same : (table.slots.map fun slot =>
        if key slot = wanted then write slot else slot).map key = table.slots.map key := by
      rw [List.map_map]
      apply List.map_congr_left
      intro slot _
      by_cases hit : key slot = wanted <;> simp [hit, keeps]
    rw [same]
    exact table.distinct
  bounded := by simpa using table.bounded

section Update

variable (table : SlotTable α key capacity) (wanted : κ) (write : α → α)
  (keeps : ∀ slot, key (write slot) = key slot)

@[simp] theorem keys_update : (table.update wanted write keeps).keys = table.keys := by
  simp only [keys, update, List.map_map]
  apply List.map_congr_left
  intro slot _
  by_cases hit : key slot = wanted <;> simp [hit, keeps]

@[simp] theorem length_update :
    (table.update wanted write keeps).slots.length = table.slots.length := by
  simp [update]

variable {table wanted}

theorem mem_update {slot : α} :
    slot ∈ (table.update wanted write keeps).slots ↔
      ∃ before ∈ table.slots, slot = if key before = wanted then write before else before := by
  simp [update, eq_comm]

variable {write}

theorem find?_update_self {slot : α} (found : table.find? wanted = some slot) :
    (table.update wanted write keeps).find? wanted = some (write slot) := by
  obtain ⟨member, hit⟩ := find?_eq_some_iff.mp found
  apply find?_eq_some_iff.mpr
  refine ⟨(mem_update write keeps).mpr ⟨slot, member, by simp [hit]⟩, ?_⟩
  rw [keeps, hit]

theorem find?_update_of_ne {other : κ} (differs : other ≠ wanted) :
    (table.update wanted write keeps).find? other = table.find? other := by
  cases found : table.find? other with
  | none =>
      rw [find?_eq_none_iff_keys] at found ⊢
      rwa [keys_update]
  | some slot =>
      obtain ⟨member, hit⟩ := find?_eq_some_iff.mp found
      apply find?_eq_some_iff.mpr
      have miss : key slot ≠ wanted := hit ▸ differs
      exact ⟨(mem_update write keeps).mpr ⟨slot, member, by simp [miss]⟩, hit⟩

/-- What holds of every slot still does when it holds of the one that is written. -/
theorem forall_update {holds : α → Prop} (all : ∀ slot ∈ table.slots, holds slot) {slot : α}
    (found : table.find? wanted = some slot) (written : holds (write slot)) :
    ∀ after ∈ (table.update wanted write keeps).slots, holds after := by
  intro after member
  obtain ⟨before, inTable, rfl⟩ := (mem_update write keeps).mp member
  obtain ⟨slotMem, named⟩ := find?_eq_some_iff.mp found
  split
  · rename_i hit
    rw [table.eq_of_key_eq inTable slotMem (hit.trans named.symm)]
    exact written
  · exact all before inTable

/-- A write for a key without a slot goes nowhere. -/
theorem update_of_absent (absent : table.find? wanted = none) :
    table.update wanted write keeps = table := by
  apply SlotTable.ext
  apply (List.map_congr_left _).trans (List.map_id _)
  intro slot member
  exact if_neg (find?_eq_none_iff.mp absent slot member)

/-- A write through one slot moves a total by that slot's change alone. -/
theorem sum_update (measure : α → Int) {slot : α} (found : table.find? wanted = some slot) :
    ((table.update wanted write keeps).slots.map measure).sum =
      (table.slots.map measure).sum - measure slot + measure (write slot) := by
  obtain ⟨member, hit⟩ := find?_eq_some_iff.mp found
  obtain ⟨before, after, split⟩ := List.append_of_mem member
  have unique : ∀ other ∈ before ++ after, key other ≠ wanted := by
    have nodup := table.distinct
    rw [split] at nodup
    simp only [List.map_append, List.map_cons] at nodup
    have outside := (List.nodup_middle.mp nodup).notMem
    intro other otherMem otherHit
    apply outside
    rw [← List.map_append]
    exact List.mem_map.mpr ⟨other, otherMem, otherHit.trans hit.symm⟩
  have keepList : ∀ others : List α, (∀ other ∈ others, key other ≠ wanted) →
      (others.map fun other => if key other = wanted then write other else other) = others := by
    intro others misses
    apply (List.map_congr_left _).trans (List.map_id _)
    intro other otherMem
    simp [misses other otherMem]
  have beforeKept := keepList before fun other mem => unique other (List.mem_append_left _ mem)
  have afterKept := keepList after fun other mem => unique other (List.mem_append_right _ mem)
  simp only [update, split, List.map_append, List.map_cons, beforeKept, afterKept, hit, if_true,
    List.sum_append, List.sum_cons]
  ring

end Update

/-- One term per slot, of which at most one is not zero. -/
theorem sum_ite_key (table : SlotTable α key capacity) (wanted : κ) (amount : Int) :
    (table.slots.map fun slot => if wanted = key slot then amount else 0).sum =
      if wanted ∈ table.keys then amount else 0 := by
  obtain ⟨slots, nodup, bounded⟩ := table
  unfold keys
  simp only
  induction slots with
  | nil => rfl
  | cons slot rest ih =>
      obtain ⟨fresh, distinct⟩ := List.nodup_cons.mp nodup
      have tail := ih distinct ((Nat.le_succ _).trans bounded)
      rw [List.map_cons, List.sum_cons, tail, List.map_cons]
      by_cases first : wanted = key slot
      · subst first
        simp [fresh]
      · simp [first]

/-- Items accounted for under their keys are counted once, or not at all without a slot. -/
theorem sum_fibres {β : Type} (table : SlotTable α key capacity) (keyOf : β → κ)
    (amount : β → Int) (items : List β) :
    (table.slots.map fun slot =>
        ((items.filter fun item => keyOf item = key slot).map amount).sum).sum =
      ((items.filter fun item => keyOf item ∈ table.keys).map amount).sum := by
  induction items with
  | nil => simp
  | cons item rest ih =>
      have apart : ∀ slot, (((item :: rest).filter fun item => keyOf item = key slot).map
          amount).sum = (if keyOf item = key slot then amount item else 0) +
            ((rest.filter fun item => keyOf item = key slot).map amount).sum := by
        intro slot
        by_cases own : keyOf item = key slot <;> simp [own]
      simp only [apart]
      rw [List.sum_map_add, sum_ite_key, ih]
      by_cases held : keyOf item ∈ table.keys <;> simp [held]

/-- Writes that agree on the slot they hit are the same write. -/
theorem update_congr {table : SlotTable α key capacity} {wanted : κ} {write rewrite : α → α}
    (keeps : ∀ slot, key (write slot) = key slot) (keeps' : ∀ slot, key (rewrite slot) = key slot)
    (same : ∀ slot ∈ table.slots, key slot = wanted → write slot = rewrite slot) :
    table.update wanted write keeps = table.update wanted rewrite keeps' := by
  apply SlotTable.ext
  apply List.map_congr_left
  intro slot member
  by_cases hit : key slot = wanted
  · rw [if_pos hit, if_pos hit, same slot member hit]
  · rw [if_neg hit, if_neg hit]

/-- Writes through different slots commute. -/
theorem update_comm {table : SlotTable α key capacity} {first second : κ} (differs : first ≠ second)
    {write rewrite : α → α} (keeps : ∀ slot, key (write slot) = key slot)
    (keeps' : ∀ slot, key (rewrite slot) = key slot) :
    (table.update first write keeps).update second rewrite keeps' =
      (table.update second rewrite keeps').update first write keeps := by
  apply SlotTable.ext
  simp only [update, List.map_map]
  apply List.map_congr_left
  intro slot _
  by_cases hitFirst : key slot = first
  · simp [hitFirst, keeps, differs]
  · by_cases hitSecond : key slot = second
    · simp [hitSecond, keeps', differs.symm]
    · simp [hitFirst, hitSecond]

/-! ## Creating a slot -/

/-- Take the next free slot for a record whose key is new, if there is one. -/
def insert (table : SlotTable α key capacity) (record : α)
    (isNew : table.find? (key record) = none) : SlotTable α key capacity :=
  if room : table.slots.length < capacity then
    { slots := table.slots ++ [record]
      distinct := by
        rw [List.map_append, List.map_singleton]
        refine List.nodup_append.mpr ⟨table.distinct, List.nodup_singleton _, ?_⟩
        rintro slotKey slotMem other otherMem rfl
        obtain ⟨slot, member, hit⟩ := List.mem_map.mp slotMem
        exact find?_eq_none_iff.mp isNew slot member (hit.trans (by simpa using otherMem))
      bounded := by
        rw [List.length_append, List.length_singleton]
        exact room }
  else table

/-- Find or create, then write: a found slot is rewritten, an absent key takes the
next free slot, and a full table drops the write. -/
def upsert (table : SlotTable α key capacity) (record : α) (write : α → α)
    (keeps : ∀ slot, key (write slot) = key slot) : SlotTable α key capacity :=
  match found : table.find? (key record) with
  | some _ => table.update (key record) write keeps
  | none => table.insert record found

section Upsert

variable {table : SlotTable α key capacity} {record : α} {write : α → α}
  (keeps : ∀ slot, key (write slot) = key slot)

theorem upsert_of_found {slot : α} (found : table.find? (key record) = some slot) :
    table.upsert record write keeps = table.update (key record) write keeps := by
  unfold upsert
  split
  · rfl
  · rename_i absent
    rw [found] at absent
    cases absent

theorem slots_upsert_of_room (absent : table.find? (key record) = none)
    (room : table.slots.length < capacity) :
    (table.upsert record write keeps).slots = table.slots ++ [record] := by
  unfold upsert
  split
  · rename_i slot found
    rw [absent] at found
    cases found
  · simp [insert, room]

theorem upsert_of_full (absent : table.find? (key record) = none)
    (full : capacity ≤ table.slots.length) : table.upsert record write keeps = table := by
  unfold upsert
  split
  · rename_i slot found
    rw [absent] at found
    cases found
  · simp [insert, Nat.not_lt.mpr full]

/-- The three outcomes of `upsert`, told apart by the search and the room left. -/
theorem upsert_cases (table : SlotTable α key capacity) (record : α) (write : α → α)
    (keeps : ∀ slot, key (write slot) = key slot) :
    (∃ slot, table.find? (key record) = some slot ∧
      table.upsert record write keeps = table.update (key record) write keeps) ∨
    (table.find? (key record) = none ∧ table.slots.length < capacity ∧
      (table.upsert record write keeps).slots = table.slots ++ [record]) ∨
    (table.find? (key record) = none ∧ capacity ≤ table.slots.length ∧
      table.upsert record write keeps = table) := by
  cases found : table.find? (key record) with
  | some slot => exact .inl ⟨slot, rfl, upsert_of_found keeps found⟩
  | none =>
      by_cases room : table.slots.length < capacity
      · exact .inr (.inl ⟨rfl, room, slots_upsert_of_room keeps found room⟩)
      · exact .inr (.inr ⟨rfl, Nat.not_lt.mp room, upsert_of_full keeps found (Nat.not_lt.mp room)⟩)

theorem upsert_congr {rewrite : α → α} (keeps' : ∀ slot, key (rewrite slot) = key slot)
    (same : ∀ slot ∈ table.slots, key slot = key record → write slot = rewrite slot) :
    table.upsert record write keeps = table.upsert record rewrite keeps' := by
  obtain ⟨slot, found, equal⟩ | ⟨absent, room, equal⟩ | ⟨absent, full, equal⟩ :=
    upsert_cases table record write keeps
  · rw [equal, upsert_of_found keeps' found, update_congr keeps keeps' same]
  · apply SlotTable.ext
    rw [equal, slots_upsert_of_room keeps' absent room]
  · rw [equal, upsert_of_full keeps' absent full]

/-- A new key is found in the slot created for it. -/
theorem find?_upsert_self_of_room (absent : table.find? (key record) = none)
    (room : table.slots.length < capacity) :
    (table.upsert record write keeps).find? (key record) = some record := by
  apply find?_eq_some_iff.mpr
  rw [slots_upsert_of_room keeps absent room]
  exact ⟨by simp, rfl⟩

/-- `upsert` leaves every other key alone, whether it creates a slot or not. -/
theorem find?_upsert_of_ne {other : κ} (differs : other ≠ key record) :
    (table.upsert record write keeps).find? other = table.find? other := by
  obtain ⟨slot, _, same⟩ | ⟨_, _, same⟩ | ⟨_, _, same⟩ := upsert_cases table record write keeps
  · rw [same, find?_update_of_ne keeps differs]
  · simp [find?, same, List.find?_append, differs.symm]
  · rw [same]

/-- A new key leaves every slot as it is, whether it gets a slot or not. -/
theorem prefix_upsert_of_absent (absent : table.find? (key record) = none) :
    table.slots <+: (table.upsert record write keeps).slots := by
  obtain ⟨slot, found, _⟩ | ⟨_, _, same⟩ | ⟨_, _, same⟩ := upsert_cases table record write keeps
  · rw [absent] at found
    cases found
  · rw [same]
    exact List.prefix_append _ _
  · exact same.symm ▸ List.prefix_rfl

variable (table record) in
/-- The keys after a find-or-create. -/
theorem keys_upsert : (table.upsert record write keeps).keys =
    if key record ∉ table.keys ∧ table.slots.length < capacity then table.keys ++ [key record]
    else table.keys := by
  obtain ⟨slot, found, same⟩ | ⟨absent, room, same⟩ | ⟨absent, full, same⟩ :=
    upsert_cases table record write keeps
  · rw [same, keys_update, if_neg (by simp [mem_keys_of_find? found])]
  · rw [if_pos ⟨find?_eq_none_iff_keys.mp absent, room⟩]
    simp [keys, same]
  · rw [same, if_neg (by simp [Nat.not_lt.mpr full])]

/-- `upsert` introduces no key but the record's. -/
theorem mem_keys_upsert {other : κ} (member : other ∈ (table.upsert record write keeps).keys) :
    other ∈ table.keys ∨ other = key record := by
  rw [keys_upsert] at member
  split at member
  · simpa using member
  · exact .inl member

end Upsert

/-- A write through another slot commutes with find-or-create. -/
theorem update_upsert_comm {table : SlotTable α key capacity} {record : α} {wanted : κ}
    {write rewrite : α → α} (differs : wanted ≠ key record)
    (keeps : ∀ slot, key (write slot) = key slot)
    (keeps' : ∀ slot, key (rewrite slot) = key slot) :
    (table.update wanted rewrite keeps').upsert record write keeps =
      (table.upsert record write keeps).update wanted rewrite keeps' := by
  have sameFind : (table.update wanted rewrite keeps').find? (key record) =
      table.find? (key record) := find?_update_of_ne keeps' differs.symm
  obtain ⟨slot, found, same⟩ | ⟨absent, room, same⟩ | ⟨absent, full, same⟩ :=
    upsert_cases table record write keeps
  · rw [same, upsert_of_found keeps (sameFind.trans found), update_comm differs]
  · apply SlotTable.ext
    rw [slots_upsert_of_room keeps (sameFind.trans absent) (by simpa using room)]
    simp [update, same, differs.symm]
  · rw [same, upsert_of_full keeps (sameFind.trans absent) (by simpa using full)]

/-! ## A change of every slot -/

/-- Every slot changed, and no key. -/
def mapSlots (table : SlotTable α key capacity) (change : α → α)
    (keepsKey : ∀ slot, key (change slot) = key slot) : SlotTable α key capacity where
  slots := table.slots.map change
  distinct := by
    have same : (table.slots.map change).map key = table.slots.map key := by
      rw [List.map_map]
      exact List.map_congr_left fun slot _ => keepsKey slot
    rw [same]
    exact table.distinct
  bounded := by simpa using table.bounded

section MapSlots

variable (table : SlotTable α key capacity) {change write write' : α → α}
  (keepsKey : ∀ slot, key (change slot) = key slot)
  (keeps : ∀ slot, key (write slot) = key slot) (keeps' : ∀ slot, key (write' slot) = key slot)
  (commutes : ∀ slot, write' (change slot) = change (write slot))

theorem find?_mapSlots (wanted : κ) :
    (table.mapSlots change keepsKey).find? wanted = (table.find? wanted).map change := by
  unfold find? mapSlots
  rw [List.find?_map]
  congr 2
  funext slot
  simp [keepsKey]

include commutes

theorem update_mapSlots (wanted : κ) :
    (table.mapSlots change keepsKey).update wanted write' keeps' =
      (table.update wanted write keeps).mapSlots change keepsKey := by
  apply SlotTable.ext
  simp only [update, mapSlots, List.map_map]
  apply List.map_congr_left
  intro slot _
  by_cases hit : key slot = wanted <;> simp [hit, keepsKey, commutes]

theorem upsert_mapSlots (record : α) :
    (table.mapSlots change keepsKey).upsert (change record) write' keeps' =
      (table.upsert record write keeps).mapSlots change keepsKey := by
  have search : (table.mapSlots change keepsKey).find? (key (change record)) =
      (table.find? (key record)).map change := by
    rw [keepsKey, find?_mapSlots]
  obtain ⟨slot, found, same⟩ | ⟨absent, room, same⟩ | ⟨absent, full, same⟩ :=
    upsert_cases table record write keeps
  · rw [found] at search
    rw [same, upsert_of_found keeps' search, keepsKey record]
    exact table.update_mapSlots keepsKey keeps keeps' commutes (key record)
  · rw [absent] at search
    apply SlotTable.ext
    rw [slots_upsert_of_room keeps' search (by simpa [mapSlots] using room)]
    simp [mapSlots, same]
  · rw [absent] at search
    rw [same, upsert_of_full keeps' search (by simpa [mapSlots] using full)]

end MapSlots

/-! ## Agreement up to some fields -/

/-- Slot by slot, two tables look the same through `view`. -/
def Agree {β : Type} (view : α → β) (left right : SlotTable α key capacity) : Prop :=
  left.slots.map view = right.slots.map view

namespace Agree

variable {β : Type} {view : α → β} {left right : SlotTable α key capacity}

omit [DecidableEq κ] in
theorem length_eq (agree : left.Agree view right) : left.slots.length = right.slots.length := by
  simpa using congrArg List.length agree

omit [DecidableEq κ] in
/-- What is computed from each slot's view is the same on both sides. -/
theorem map_eq_map (agree : left.Agree view right) {γ : Type} {figure figure' : α → γ}
    (respects : ∀ slot slot', view slot = view slot' → figure slot = figure' slot') :
    left.slots.map figure = right.slots.map figure' := by
  unfold Agree at agree
  generalize left.slots = slots at agree
  generalize right.slots = slots' at agree
  induction slots generalizing slots' with
  | nil =>
      rw [List.map_nil, eq_comm, List.map_eq_nil_iff] at agree
      rw [agree]
      rfl
  | cons slot rest ih =>
      cases slots' with
      | nil => cases agree
      | cons slot' rest' =>
          simp only [List.map_cons, List.cons.injEq] at agree ⊢
          exact ⟨respects slot slot' agree.1, ih rest' agree.2⟩

variable (seesKey : ∀ slot slot', view slot = view slot' → key slot = key slot')
include seesKey

theorem find?_eq_none_iff (agree : left.Agree view right) {wanted : κ} :
    left.find? wanted = none ↔ right.find? wanted = none := by
  rw [find?_eq_none_iff_keys, find?_eq_none_iff_keys, keys, keys,
    agree.map_eq_map seesKey]

/-- Both sides find slots that look the same. -/
theorem map_find? (agree : left.Agree view right) (wanted : κ) :
    (left.find? wanted).map view = (right.find? wanted).map view := by
  cases found : left.find? wanted with
  | none => rw [(agree.find?_eq_none_iff seesKey).mp found]
  | some slot =>
      obtain ⟨member, named⟩ := SlotTable.find?_eq_some_iff.mp found
      have inView : view slot ∈ right.slots.map view := agree ▸ List.mem_map_of_mem member
      obtain ⟨twin, inTable, same⟩ := List.mem_map.mp inView
      have twinFound : right.find? wanted = some twin :=
        SlotTable.find?_eq_some_iff.mpr ⟨inTable, (seesKey twin slot same).trans named⟩
      rw [twinFound, Option.map_some, Option.map_some, same]

theorem update (agree : left.Agree view right) {wanted : κ} {write write' : α → α}
    (respects : ∀ slot slot', view slot = view slot' → view (write slot) = view (write' slot'))
    (keeps : ∀ slot, key (write slot) = key slot) (keeps' : ∀ slot, key (write' slot) = key slot) :
    (left.update wanted write keeps).Agree view (right.update wanted write' keeps') := by
  unfold Agree SlotTable.update
  rw [List.map_map, List.map_map]
  refine agree.map_eq_map fun slot slot' same => ?_
  simp only [Function.comp_apply]
  rw [seesKey slot slot' same]
  split
  · exact respects slot slot' same
  · exact same

theorem upsert (agree : left.Agree view right) {record record' : α} {write write' : α → α}
    (sameRecord : view record = view record')
    (respects : ∀ slot slot', view slot = view slot' → view (write slot) = view (write' slot'))
    (keeps : ∀ slot, key (write slot) = key slot) (keeps' : ∀ slot, key (write' slot) = key slot) :
    (left.upsert record write keeps).Agree view (right.upsert record' write' keeps') := by
  have sameKey := seesKey record record' sameRecord
  obtain ⟨slot, found, same⟩ | ⟨absent, room, same⟩ | ⟨absent, full, same⟩ :=
    upsert_cases left record write keeps
  · obtain ⟨slot', found'⟩ : ∃ slot', right.find? (key record') = some slot' := by
      apply Option.ne_none_iff_exists'.mp
      intro absent
      rw [← sameKey, ← agree.find?_eq_none_iff seesKey, found] at absent
      cases absent
    rw [same, upsert_of_found keeps' found', ← sameKey]
    exact agree.update seesKey respects keeps keeps'
  · have absent' := (agree.find?_eq_none_iff seesKey).mp absent
    rw [sameKey] at absent'
    unfold Agree
    rw [same, slots_upsert_of_room keeps' absent' (agree.length_eq ▸ room), List.map_append,
      List.map_append, show left.slots.map view = right.slots.map view from agree]
    simp [sameRecord]
  · have absent' := (agree.find?_eq_none_iff seesKey).mp absent
    rw [sameKey] at absent'
    rw [same, upsert_of_full keeps' absent' (agree.length_eq ▸ full)]
    exact agree

end Agree

end SlotTable

end Hft.Logical
