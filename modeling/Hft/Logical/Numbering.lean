import Mathlib.Data.List.Indexes
import Mathlib.Data.List.Induction
import Mathlib.Data.List.Nodup

/-!
# Scans that number what they make

A scan that appends one result per item, numbered by how many it has made so far,
maps every item under its position. What is read off a result without its number is a
plain map of the items, what is read off the number alone depends on their count only,
and an item the scan passes over might as well not be there.
-/

namespace Hft.Logical

variable {α β γ : Type}

/-- One result per item, numbered from 1. -/
theorem foldl_numbering (make : Nat → α → β) (items : List α) :
    items.foldl (fun made item => made ++ [make (made.length + 1) item]) [] =
      items.mapIdx fun index item => make (index + 1) item := by
  induction items using List.reverseRecOn with
  | nil => rfl
  | append_singleton items item ih =>
      rw [List.foldl_append, ih, List.mapIdx_append_one]
      simp

/-- The same for a scan that passes some items over and does not count them. -/
theorem foldl_numbering_filter (skip : α → Bool) (make : Nat → α → β) (items : List α) :
    items.foldl
        (fun made item => if skip item then made else made ++ [make (made.length + 1) item]) [] =
      (items.filter fun item => !skip item).mapIdx fun index item => make (index + 1) item := by
  rw [← foldl_numbering, List.foldl_filter]
  congr 1
  funext made item
  cases skip item <;> rfl

/-- A view of the results is a scan of its own. -/
theorem map_mapIdx (make : Nat → α → β) (view : β → γ) (items : List α) :
    (items.mapIdx make).map view = items.mapIdx fun index item => view (make index item) := by
  apply List.ext_getElem
  · simp
  · intro index _ _
    simp

/-- What a result says whatever its number is. -/
theorem map_mapIdx_eq_map {make : Nat → α → β} {view : β → γ} {figure : α → γ}
    (forgets : ∀ index item, view (make index item) = figure item) (items : List α) :
    (items.mapIdx make).map view = items.map figure := by
  rw [map_mapIdx]
  apply List.ext_getElem
  · simp
  · intro index _ _
    simp [forgets]

/-- What a result says whatever its item is. -/
theorem map_mapIdx_eq_range {make : Nat → α → β} {view : β → γ} {name : Nat → γ}
    (named : ∀ index item, view (make index item) = name index) (items : List α) :
    (items.mapIdx make).map view = (List.range items.length).map name := by
  rw [map_mapIdx]
  apply List.ext_getElem
  · simp
  · intro index _ _
    simp [named]

/-- Numbers with different names give every result a name of its own. -/
theorem nodup_map_mapIdx {make : Nat → α → β} {view : β → γ} {name : Nat → γ}
    (named : ∀ index item, view (make index item) = name index)
    (injective : Function.Injective name) (items : List α) :
    ((items.mapIdx make).map view).Nodup := by
  rw [map_mapIdx_eq_range named]
  exact List.nodup_range.map injective

/-- What is kept of the results by number alone, and named by it. -/
theorem map_filter_mapIdx {make : Nat → α → β} {view : β → γ} {name : Nat → γ} {keep : β → Bool}
    {kept : Nat → Bool} (named : ∀ index item, view (make index item) = name index)
    (chosen : ∀ index item, keep (make index item) = kept index) (items : List α) :
    ((items.mapIdx make).filter keep).map view =
      ((List.range items.length).filter kept).map name := by
  induction items using List.reverseRecOn with
  | nil => rfl
  | append_singleton items item ih =>
      rw [List.mapIdx_append_one, List.length_append, List.length_singleton, List.range_succ,
        List.filter_append, List.filter_append, List.map_append, List.map_append, ih]
      congr 1
      cases through : kept items.length <;> simp [chosen, named, through]

end Hft.Logical
