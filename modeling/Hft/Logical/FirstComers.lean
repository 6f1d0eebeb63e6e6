import Hft.Logical.SlotTable
import Mathlib.Data.List.Induction
import Mathlib.Data.List.Infix

/-!
# First come, first served

What a table of bounded size holds when each item of a stream asks for a place of its own:
the first `capacity` different items, in the order in which they first come.
-/

namespace Hft.Logical

section FirstComers

variable {κ : Type} [DecidableEq κ]

/-- The different items of a stream, in the order of their first mention. -/
def firstMentions (items : List κ) : List κ := items.eraseDups

/-- The first `capacity` of them. -/
def firstComers (capacity : Nat) (items : List κ) : List κ := (firstMentions items).take capacity

@[simp] theorem firstMentions_nil : firstMentions ([] : List κ) = [] := rfl

theorem mem_firstMentions {items : List κ} {item : κ} : item ∈ firstMentions items ↔ item ∈ items :=
  List.mem_eraseDups

theorem firstMentions_concat (items : List κ) (item : κ) :
    firstMentions (items ++ [item]) =
      if item ∈ items then firstMentions items else firstMentions items ++ [item] := by
  unfold firstMentions
  rw [List.eraseDups_append]
  by_cases member : item ∈ items <;> simp [member, List.removeAll, List.eraseDups_cons]

theorem nodup_firstMentions (items : List κ) : (firstMentions items).Nodup := by
  induction items using List.reverseRecOn with
  | nil => exact List.nodup_nil
  | append_singleton items item ih =>
      rw [firstMentions_concat]
      split
      · exact ih
      · rename_i fresh
        rw [← List.concat_eq_append]
        exact ih.concat (mt mem_firstMentions.mp fresh)

/-- Streams that are rearrangements of each other mention the same. -/
theorem firstMentions_perm {items others : List κ} (perm : items.Perm others) :
    (firstMentions items).Perm (firstMentions others) := by
  refine (List.perm_ext_iff_of_nodup (nodup_firstMentions _) (nodup_firstMentions _)).mpr ?_
  intro item
  rw [mem_firstMentions, mem_firstMentions, perm.mem_iff]

/-- When there is a place for everyone, everyone is served. -/
theorem mem_firstComers_of_few {capacity : Nat} {items : List κ} {item : κ}
    (few : (firstMentions items).length ≤ capacity) :
    item ∈ firstComers capacity items ↔ item ∈ items := by
  rw [firstComers, List.take_of_length_le few, mem_firstMentions]

theorem firstComers_prefix_append (capacity : Nat) (items more : List κ) :
    firstComers capacity items <+: firstComers capacity (items ++ more) := by
  unfold firstComers firstMentions
  rw [List.eraseDups_append]
  exact (List.prefix_append _ _).take capacity

/-- Who is served in the end is served when first mentioned. -/
theorem mem_firstComers_of_append {capacity : Nat} {items more : List κ} {item : κ}
    (served : item ∈ firstComers capacity (items ++ more)) (mentioned : item ∈ items) :
    item ∈ firstComers capacity items := by
  unfold firstComers firstMentions at served ⊢
  rw [List.eraseDups_append, List.take_append] at served
  obtain first | later := List.mem_append.mp served
  · exact first
  · have fresh := List.mem_eraseDups.mp (List.mem_of_mem_take later)
    simp [List.removeAll, mentioned] at fresh

/-- One more item is served if it is new and there is room. -/
theorem firstComers_concat (capacity : Nat) (items : List κ) (item : κ) :
    firstComers capacity (items ++ [item]) =
      if item ∉ firstComers capacity items ∧ (firstComers capacity items).length < capacity then
        firstComers capacity items ++ [item]
      else firstComers capacity items := by
  unfold firstComers
  rw [firstMentions_concat]
  by_cases room : (firstMentions items).length < capacity
  · -- Everything that came is in.
    have all : (firstMentions items).take capacity = firstMentions items :=
      List.take_of_length_le room.le
    simp only [all, mem_firstMentions, room, and_true]
    by_cases member : item ∈ items
    · rw [if_pos member, if_neg (not_not.mpr member), all]
    · have fits : (firstMentions items ++ [item]).length ≤ capacity := by
        rwa [List.length_append, List.length_singleton]
      rw [if_neg member, if_pos member, List.take_of_length_le fits]
  · have full : ¬(item ∉ (firstMentions items).take capacity ∧
        ((firstMentions items).take capacity).length < capacity) := by
      rw [List.length_take]
      omega
    rw [if_neg full]
    split
    · rfl
    · exact List.take_append_of_le_length (by omega)

end FirstComers

/-- A table whose events ask for a place in it, or not, serves the first comers. -/
theorem SlotTable.keys_foldl_empty {α κ ε : Type} {key : α → κ} {capacity : Nat} [DecidableEq κ]
    {apply : SlotTable α key capacity → ε → SlotTable α key capacity} {on : ε → κ} {asks : ε → Bool}
    (served : ∀ table event,
      asks event = true ∧ on event ∉ table.keys ∧ table.slots.length < capacity →
        (apply table event).keys = table.keys ++ [on event])
    (turnedAway : ∀ table event,
      ¬(asks event = true ∧ on event ∉ table.keys ∧ table.slots.length < capacity) →
        (apply table event).keys = table.keys)
    (events : List ε) :
    (events.foldl apply empty).keys = firstComers capacity ((events.filter asks).map on) := by
  induction events using List.reverseRecOn with
  | nil => simp [keys, firstComers]
  | append_singleton events event ih =>
      have served := served (events.foldl apply empty) event
      have turnedAway := turnedAway (events.foldl apply empty) event
      rw [← length_keys, ih] at served turnedAway
      rw [List.foldl_append, List.foldl_cons, List.foldl_nil, List.filter_append]
      by_cases asked : asks event = true
      · rw [List.filter_cons_of_pos asked, List.filter_nil, List.map_append, List.map_singleton,
          firstComers_concat]
        split
        · rename_i room
          exact served ⟨asked, room⟩
        · rename_i noRoom
          exact turnedAway fun both => noRoom both.2
      · rw [List.filter_cons_of_neg asked, List.filter_nil, List.append_nil]
        exact turnedAway fun both => asked both.1

end Hft.Logical
