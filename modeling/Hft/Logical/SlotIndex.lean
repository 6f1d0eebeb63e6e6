import Hft.Logical.SlotTable

/-!
# Which slot is written

A slot keeps its place for good, so a find-or-create has one index to write to: the place
of its key, or the first free one, or none when the table is full. Two writes meet in one
slot exactly when they are for one key.
-/

namespace Hft.Logical.SlotTable

variable {α κ : Type} {key : α → κ} {capacity : Nat} [DecidableEq κ]

/-- The index at which find-or-create writes. -/
def slotFor (table : SlotTable α key capacity) (wanted : κ) : Option Nat :=
  if wanted ∈ table.keys then some (table.keys.idxOf wanted)
  else if table.slots.length < capacity then some table.slots.length
  else none

/-- A key has a slot or can be given one. -/
def Takes (table : SlotTable α key capacity) (wanted : κ) : Prop :=
  wanted ∈ table.keys ∨ table.slots.length < capacity

instance (table : SlotTable α key capacity) (wanted : κ) : Decidable (table.Takes wanted) :=
  inferInstanceAs (Decidable (_ ∨ _))

variable {table : SlotTable α key capacity} {record : α} {write : α → α}
  (keeps : ∀ slot, key (write slot) = key slot)

theorem exists_slotFor_iff {wanted : κ} :
    (∃ index, table.slotFor wanted = some index) ↔ table.Takes wanted := by
  unfold slotFor Takes
  split_ifs <;> simp_all

/-- A find-or-create writes nowhere else. -/
theorem getElem?_upsert_of_ne {index : Nat} (other : table.slotFor (key record) ≠ some index) :
    (table.upsert record write keeps).slots[index]? = table.slots[index]? := by
  obtain ⟨slot, found, same⟩ | ⟨absent, room, same⟩ | ⟨_, _, same⟩ :=
    upsert_cases table record write keeps
  · rw [slotFor, if_pos (mem_keys_of_find? found)] at other
    rw [same, update, List.getElem?_map]
    cases visited : table.slots[index]? with
    | none => rfl
    | some twin =>
        have differs : key twin ≠ key record := by
          intro hit
          obtain ⟨below, rfl⟩ := List.getElem?_eq_some_iff.mp visited
          have place := table.distinct.idxOf_getElem index (by simpa using below)
          rw [List.getElem_map, hit] at place
          exact other (congrArg some place)
        simp [differs]
  · have missing := find?_eq_none_iff_keys.mp absent
    rw [slotFor, if_neg missing, if_pos room] at other
    have elsewhere : index ≠ table.slots.length := fun last => other (congrArg some last.symm)
    rw [same]
    by_cases below : index < table.slots.length
    · rw [List.getElem?_append_left below]
    · rw [List.getElem?_eq_none (by simp; omega), List.getElem?_eq_none (by omega)]
  · rw [same]

/-- The written slot is the one its key has from then on. -/
theorem slotFor_upsert_self :
    (table.upsert record write keeps).slotFor (key record) = table.slotFor (key record) := by
  have grown := keys_upsert table record keeps
  by_cases present : key record ∈ table.keys
  · rw [if_neg (by simp [present])] at grown
    unfold slotFor
    rw [grown, if_pos present, if_pos present]
  · by_cases room : table.slots.length < capacity
    · rw [if_pos ⟨present, room⟩] at grown
      unfold slotFor
      rw [grown, if_pos (by simp), if_neg present, if_pos room,
        List.idxOf_append_of_notMem present]
      simp [keys]
    · have absent := find?_eq_none_iff_keys.mpr present
      rw [upsert_of_full keeps absent (Nat.not_lt.mp room)]

/-- A key that was written has a slot. -/
theorem mem_keys_upsert_of_takes (takes : table.Takes (key record)) :
    key record ∈ (table.upsert record write keeps).keys := by
  rw [keys_upsert]
  split
  · exact List.mem_append_right _ (List.mem_singleton_self _)
  · rename_i unchanged
    by_contra missing
    exact unchanged ⟨missing, takes.resolve_left missing⟩

/-- However the table grows, a key keeps its slot. -/
theorem slotFor_of_grown {later : SlotTable α key capacity} (grown : table.keys <+: later.keys)
    {wanted : κ} (present : wanted ∈ table.keys) :
    later.slotFor wanted = table.slotFor wanted := by
  unfold slotFor
  rw [if_pos (grown.subset present), if_pos present]
  obtain ⟨added, split⟩ := grown
  rw [← split, List.idxOf_append_of_mem present]

/-- A slot in use is the slot of one key. -/
theorem slotFor_ne {present wanted : κ} (inUse : present ∈ table.keys)
    (differs : present ≠ wanted) :
    table.slotFor present ≠ table.slotFor wanted := by
  intro same
  have place := List.idxOf_lt_length_of_mem inUse
  unfold slotFor at same
  rw [if_pos inUse] at same
  split_ifs at same with other room
  · exact differs ((List.idxOf_inj inUse).mp (Option.some.inj same))
  · have last := Option.some.inj same
    rw [length_keys] at place
    omega

/-- A find-or-create, and another in what the table has become since, write to two slots
exactly when the keys differ and each has a slot or is given one. -/
theorem two_slots_iff {later : SlotTable α key capacity}
    (grown : (table.upsert record write keeps).keys <+: later.keys) (wanted : κ) :
    (∃ first second, table.slotFor (key record) = some first ∧
        later.slotFor wanted = some second ∧ first ≠ second) ↔
      key record ≠ wanted ∧ table.Takes (key record) ∧ later.Takes wanted := by
  have kept : table.Takes (key record) →
      later.slotFor (key record) = table.slotFor (key record) := by
    intro takes
    rw [slotFor_of_grown grown (mem_keys_upsert_of_takes keeps takes), slotFor_upsert_self]
  constructor
  · rintro ⟨first, second, found, foundLater, differs⟩
    have takes := exists_slotFor_iff.mp ⟨first, found⟩
    refine ⟨?_, takes, exists_slotFor_iff.mp ⟨second, foundLater⟩⟩
    rintro rfl
    rw [kept takes, found] at foundLater
    exact differs (Option.some.inj foundLater)
  · rintro ⟨differs, takes, takesLater⟩
    obtain ⟨first, found⟩ := exists_slotFor_iff.mpr takes
    obtain ⟨second, foundLater⟩ := exists_slotFor_iff.mpr takesLater
    refine ⟨first, second, found, foundLater, ?_⟩
    rintro rfl
    have inUse := grown.subset (mem_keys_upsert_of_takes keeps takes)
    exact slotFor_ne inUse differs ((kept takes).trans (found.trans foundLater.symm))

end Hft.Logical.SlotTable
