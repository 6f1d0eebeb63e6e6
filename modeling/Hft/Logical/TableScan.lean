import Hft.Logical.SlotTable
import Mathlib.Data.List.Infix
import Mathlib.Logic.Relation

/-!
# Scans of a table in use

A linear scan that looks at one slot at a time while others change the table between two
looks. Keys never move and new ones come behind the old, so a scan that reaches the end has
looked at every slot there is exactly once, each as it was at some moment of the scan. What
it found at different slots need never have been there together.
-/

namespace Hft.Logical

open Relation

/-- A scan under way: the table, the next index to look at, the slots as they were when they
were looked at, and all tables that there have been since the scan began. -/
structure TableScan (α : Type) {κ : Type} (key : α → κ) (capacity : Nat) where
  table : SlotTable α key capacity
  index : Nat
  looked : List α
  tables : List (SlotTable α key capacity)

namespace TableScan

variable {α κ : Type} {key : α → κ} {capacity : Nat}

/-- A scan that has looked at nothing. -/
def begin (table : SlotTable α key capacity) : TableScan α key capacity := ⟨table, 0, [], [table]⟩

/-- One look, or one change of the table by somebody else. -/
inductive Step (changes : SlotTable α key capacity → SlotTable α key capacity → Prop)
    (scan : TableScan α key capacity) : TableScan α key capacity → Prop where
  | look {slot : α} (found : scan.table.slots[scan.index]? = some slot) :
      Step changes scan { scan with index := scan.index + 1, looked := scan.looked ++ [slot] }
  | change {after : SlotTable α key capacity} (changed : changes scan.table after) :
      Step changes scan { scan with table := after, tables := scan.tables ++ [after] }

/-- The loop's condition fails. -/
def Over (scan : TableScan α key capacity) : Prop := scan.table.slots.length ≤ scan.index

/-- What is known of a scan under way. -/
structure Sound (scan : TableScan α key capacity) : Prop where
  keys : scan.looked.map key = scan.table.keys.take scan.index
  within : scan.index ≤ scan.table.slots.length
  present : scan.table ∈ scan.tables
  witnessed : ∀ slot ∈ scan.looked, ∃ table ∈ scan.tables, slot ∈ table.slots

variable {changes : SlotTable α key capacity → SlotTable α key capacity → Prop}
  {scan after : TableScan α key capacity}

theorem sound_begin (table : SlotTable α key capacity) : (begin table).Sound where
  keys := rfl
  within := Nat.zero_le _
  present := List.mem_cons_self
  witnessed _ member := absurd member List.not_mem_nil

namespace Sound

theorem look (sound : scan.Sound) {slot : α}
    (found : scan.table.slots[scan.index]? = some slot) :
    Sound { scan with index := scan.index + 1, looked := scan.looked ++ [slot] } where
  keys := by
    have name : scan.table.keys[scan.index]? = some (key slot) := by
      rw [SlotTable.keys, List.getElem?_map, found, Option.map_some]
    rw [List.map_append, sound.keys, List.take_add_one, name]
    rfl
  within := (List.getElem?_eq_some_iff.mp found).1
  present := sound.present
  witnessed other member := by
    obtain old | new := List.mem_append.mp member
    · exact sound.witnessed other old
    · rw [List.mem_singleton.mp new]
      exact ⟨scan.table, sound.present, List.mem_of_getElem? found⟩

theorem change (sound : scan.Sound) {table : SlotTable α key capacity}
    (grown : scan.table.keys <+: table.keys) :
    Sound { scan with table := table, tables := scan.tables ++ [table] } where
  keys := by
    rw [sound.keys]
    obtain ⟨added, whole⟩ := grown
    rw [← whole, List.take_append_of_le_length]
    rw [SlotTable.length_keys]
    exact sound.within
  within := by
    have longer := grown.length_le
    rw [SlotTable.length_keys, SlotTable.length_keys] at longer
    exact sound.within.trans longer
  present := List.mem_append_right _ List.mem_cons_self
  witnessed slot member := by
    obtain ⟨before, inTables, inSlots⟩ := sound.witnessed slot member
    exact ⟨before, List.mem_append_left _ inTables, inSlots⟩

theorem step (grows : ∀ {before after}, changes before after → before.keys <+: after.keys)
    (sound : scan.Sound) (taken : Step changes scan after) : after.Sound := by
  cases taken with
  | look found => exact sound.look found
  | change changed => exact sound.change (grows changed)

theorem of_run (grows : ∀ {before after}, changes before after → before.keys <+: after.keys)
    {table : SlotTable α key capacity} (run : ReflTransGen (Step changes) (begin table) scan) :
    scan.Sound := by
  induction run with
  | refl => exact sound_begin table
  | tail _ taken ih => exact ih.step grows taken

/-- No key is looked at twice. -/
theorem nodup_looked (sound : scan.Sound) : (scan.looked.map key).Nodup := by
  rw [sound.keys]
  exact scan.table.distinct.sublist (List.take_sublist _ _)

/-- A scan that is over has looked at every key of the table. -/
theorem keys_of_over (sound : scan.Sound) (finished : scan.Over) :
    scan.looked.map key = scan.table.keys := by
  rw [sound.keys, List.take_of_length_le]
  rw [SlotTable.length_keys]
  exact finished

/-- Each slot has been looked at, at a moment when its key's slot was as it was found. -/
theorem exists_looked (sound : scan.Sound) (finished : scan.Over) {slot : α}
    (member : slot ∈ scan.table.slots) : ∃ twin ∈ scan.looked, key twin = key slot := by
  have inKeys : key slot ∈ scan.looked.map key := by
    rw [sound.keys_of_over finished]
    exact List.mem_map_of_mem member
  exact List.mem_map.mp inKeys

end Sound

/-- A scan that nobody disturbs looks at the table as it is. -/
theorem looked_of_still {table : SlotTable α key capacity}
    (run : ReflTransGen (Step fun _ _ => False) (begin table) scan) (finished : scan.Over) :
    scan.looked = table.slots := by
  have still : scan.table = table ∧ scan.looked = table.slots.take scan.index := by
    clear finished
    induction run with
    | refl => exact ⟨rfl, rfl⟩
    | tail _ taken ih =>
        cases taken with
        | look found =>
            obtain ⟨same, looked⟩ := ih
            rw [same] at found
            refine ⟨same, ?_⟩
            rw [looked, List.take_add_one, found]
            rfl
        | change changed => exact changed.elim
  rw [still.2, List.take_of_length_le]
  rw [← still.1]
  exact finished

/-- A scan that nobody disturbs any more comes to its end. -/
theorem exists_over (changes : SlotTable α key capacity → SlotTable α key capacity → Prop)
    (scan : TableScan α key capacity) :
    ∃ last, ReflTransGen (Step changes) scan last ∧ last.Over ∧ last.table = scan.table ∧
      last.tables = scan.tables := by
  generalize remaining : scan.table.slots.length - scan.index = count
  induction count generalizing scan with
  | zero => exact ⟨scan, .refl, Nat.le_of_sub_eq_zero remaining, rfl, rfl⟩
  | succ count ih =>
      have below : scan.index < scan.table.slots.length := by omega
      have looked : Step changes scan _ := .look (List.getElem?_eq_getElem below)
      obtain ⟨last, more, finished, sameTable, sameTables⟩ := ih
        { scan with
          index := scan.index + 1
          looked := scan.looked ++ [scan.table.slots[scan.index]] } (by simp only; omega)
      exact ⟨last, .head looked more, finished, sameTable, sameTables⟩

end TableScan

end Hft.Logical
