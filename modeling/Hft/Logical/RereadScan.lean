import Hft.Logical.TableScan

/-!
# Scans that read a slot more than once

A loop body that comes back to the slot it visits finds it as it is then, not as it was at the
first read. A visit is the list of what its reads found, and `wants` decides from these whether
it reads on. All reads of a visit are of one key, each as the slot was at some moment, but not
all at the same one.
-/

namespace Hft.Logical

open Relation

/-- A scan under way: the table, the index of the visit, what its reads have found so far, the
visits before it, and all tables that there have been since the scan began. -/
structure RereadScan (α : Type) {κ : Type} (key : α → κ) (capacity : Nat) where
  table : SlotTable α key capacity
  index : Nat
  reads : List α
  visits : List (List α)
  tables : List (SlotTable α key capacity)

namespace RereadScan

variable {α κ : Type} {key : α → κ} {capacity : Nat}

/-- A scan that has read nothing. -/
def begin (table : SlotTable α key capacity) : RereadScan α key capacity :=
  ⟨table, 0, [], [], [table]⟩

/-- One read, the end of a visit, or one change of the table by somebody else. -/
inductive Step (changes : SlotTable α key capacity → SlotTable α key capacity → Prop)
    (wants : List α → Bool) (scan : RereadScan α key capacity) :
    RereadScan α key capacity → Prop where
  | read {slot : α} (more : wants scan.reads = true)
      (found : scan.table.slots[scan.index]? = some slot) :
      Step changes wants scan { scan with reads := scan.reads ++ [slot] }
  | leave (visiting : scan.reads ≠ []) (enough : wants scan.reads = false) :
      Step changes wants scan
        { scan with index := scan.index + 1, reads := [], visits := scan.visits ++ [scan.reads] }
  | change {after : SlotTable α key capacity} (changed : changes scan.table after) :
      Step changes wants scan { scan with table := after, tables := scan.tables ++ [after] }

/-- The loop's condition fails. -/
def Over (scan : RereadScan α key capacity) : Prop :=
  scan.reads = [] ∧ scan.table.slots.length ≤ scan.index

/-- Each read was wanted after those before it. -/
def Wanted (wants : List α → Bool) (reads : List α) : Prop :=
  ∀ earlier slot, earlier ++ [slot] <+: reads → wants earlier = true

theorem wanted_nil (wants : List α → Bool) : Wanted wants [] := by
  intro earlier slot within
  simp at within

theorem Wanted.concat {wants : List α → Bool} {reads : List α} (wanted : Wanted wants reads)
    (more : wants reads = true) (slot : α) : Wanted wants (reads ++ [slot]) := by
  intro earlier last within
  obtain whole | before := List.prefix_concat_iff.mp within
  · rw [(List.append_inj' whole rfl).1]
    exact more
  · exact wanted earlier last before

/-- The reads of a visit: all of the key at its index, each as the slot was at some moment. -/
structure Visited (wants : List α → Bool) (scan : RereadScan α key capacity) (index : Nat)
    (reads : List α) : Prop where
  wanted : Wanted wants reads
  named : ∀ slot ∈ reads, scan.table.keys[index]? = some (key slot)
  witnessed : ∀ slot ∈ reads, ∃ table ∈ scan.tables, slot ∈ table.slots

/-- What is known of a scan under way. -/
structure Sound (wants : List α → Bool) (scan : RereadScan α key capacity) : Prop where
  counted : scan.visits.length = scan.index
  within : scan.index ≤ scan.table.slots.length
  present : scan.table ∈ scan.tables
  visiting : scan.Visited wants scan.index scan.reads
  visited : ∀ index reads, scan.visits[index]? = some reads →
    scan.Visited wants index reads ∧ reads ≠ [] ∧ wants reads = false

variable {changes : SlotTable α key capacity → SlotTable α key capacity → Prop}
  {wants : List α → Bool} {scan after : RereadScan α key capacity}

/-- A visit stays what it was when the table grows. -/
theorem Visited.mono {index : Nat} {reads : List α} (visited : scan.Visited wants index reads)
    {later : RereadScan α key capacity} (grown : scan.table.keys <+: later.table.keys)
    (more : scan.tables ⊆ later.tables) : later.Visited wants index reads where
  wanted := visited.wanted
  named slot member := by
    have name := visited.named slot member
    obtain ⟨added, whole⟩ := grown
    rw [← whole, List.getElem?_append_left (List.getElem?_eq_some_iff.mp name).1]
    exact name
  witnessed slot member := by
    obtain ⟨table, inTables, inSlots⟩ := visited.witnessed slot member
    exact ⟨table, more inTables, inSlots⟩

theorem visited_nil (wants : List α → Bool) (scan : RereadScan α key capacity) (index : Nat) :
    scan.Visited wants index [] where
  wanted := wanted_nil wants
  named _ member := absurd member List.not_mem_nil
  witnessed _ member := absurd member List.not_mem_nil

theorem sound_begin (wants : List α → Bool) (table : SlotTable α key capacity) :
    (begin table).Sound wants where
  counted := rfl
  within := Nat.zero_le _
  present := List.mem_cons_self
  visiting := visited_nil wants _ 0
  visited index reads found := by simp [begin] at found

namespace Sound

theorem read (sound : scan.Sound wants) (more : wants scan.reads = true) {slot : α}
    (found : scan.table.slots[scan.index]? = some slot) :
    Sound wants { scan with reads := scan.reads ++ [slot] } where
  counted := sound.counted
  within := sound.within
  present := sound.present
  visiting := by
    refine ⟨sound.visiting.wanted.concat more slot, fun other member => ?_, fun other member => ?_⟩
    · obtain old | new := List.mem_append.mp member
      · exact sound.visiting.named other old
      · rw [List.mem_singleton.mp new]
        change scan.table.keys[scan.index]? = _
        rw [SlotTable.keys, List.getElem?_map, found, Option.map_some]
    · obtain old | new := List.mem_append.mp member
      · exact sound.visiting.witnessed other old
      · rw [List.mem_singleton.mp new]
        exact ⟨scan.table, sound.present, List.mem_of_getElem? found⟩
  visited index reads inVisits := by
    obtain ⟨visited, rest⟩ := sound.visited index reads inVisits
    exact ⟨visited.mono List.prefix_rfl (List.Subset.refl _), rest⟩

theorem leave (sound : scan.Sound wants) (visiting : scan.reads ≠ [])
    (enough : wants scan.reads = false) :
    Sound wants { scan with
      index := scan.index + 1
      reads := []
      visits := scan.visits ++ [scan.reads] } where
  counted := by
    rw [List.length_append, sound.counted]
    rfl
  within := by
    obtain ⟨slot, member⟩ := List.exists_mem_of_ne_nil _ visiting
    have below := (List.getElem?_eq_some_iff.mp (sound.visiting.named slot member)).1
    rw [SlotTable.length_keys] at below
    exact below
  present := sound.present
  visiting := visited_nil wants _ _
  visited index reads found := by
    by_cases old : index < scan.visits.length
    · rw [List.getElem?_append_left old] at found
      obtain ⟨visited, rest⟩ := sound.visited index reads found
      exact ⟨visited.mono List.prefix_rfl (List.Subset.refl _), rest⟩
    · rw [List.getElem?_append_right (Nat.not_lt.mp old), List.getElem?_singleton] at found
      split at found
      · rename_i last
        cases found
        have same : index = scan.index := by
          rw [← sound.counted]
          omega
        rw [same]
        exact ⟨sound.visiting.mono List.prefix_rfl (List.Subset.refl _), visiting, enough⟩
      · cases found

theorem change (sound : scan.Sound wants) {table : SlotTable α key capacity}
    (grown : scan.table.keys <+: table.keys) :
    Sound wants { scan with table := table, tables := scan.tables ++ [table] } where
  counted := sound.counted
  within := by
    have longer := grown.length_le
    rw [SlotTable.length_keys, SlotTable.length_keys] at longer
    exact sound.within.trans longer
  present := List.mem_append_right _ List.mem_cons_self
  visiting := sound.visiting.mono grown (List.subset_append_left _ _)
  visited index reads found := by
    obtain ⟨visited, rest⟩ := sound.visited index reads found
    exact ⟨visited.mono grown (List.subset_append_left _ _), rest⟩

theorem step (grows : ∀ {before after}, changes before after → before.keys <+: after.keys)
    (sound : scan.Sound wants) (taken : Step changes wants scan after) : after.Sound wants := by
  cases taken with
  | read more found => exact sound.read more found
  | leave visiting enough => exact sound.leave visiting enough
  | change changed => exact sound.change (grows changed)

theorem of_run (grows : ∀ {before after}, changes before after → before.keys <+: after.keys)
    {table : SlotTable α key capacity}
    (run : ReflTransGen (Step changes wants) (begin table) scan) : scan.Sound wants := by
  induction run with
  | refl => exact sound_begin wants table
  | tail _ taken ih => exact ih.step grows taken

/-- Different visits are of different keys. -/
theorem index_eq (sound : scan.Sound wants) {index index' : Nat} {reads reads' : List α}
    (found : scan.visits[index]? = some reads) (found' : scan.visits[index']? = some reads')
    {slot slot' : α} (member : slot ∈ reads) (member' : slot' ∈ reads')
    (sameKey : key slot = key slot') : index = index' := by
  have name := (sound.visited index reads found).1.named slot member
  have name' := (sound.visited index' reads' found').1.named slot' member'
  rw [sameKey, ← name'] at name
  refine (List.getElem?_inj ?_ scan.table.distinct).mp name
  rw [name'] at name
  exact (List.getElem?_eq_some_iff.mp name).1

/-- What is picked from the reads of each visit has a key of its own. -/
theorem nodup_picked (sound : scan.Sound wants) {pick : List α → Option α}
    (picks : ∀ reads slot, pick reads = some slot → slot ∈ reads) :
    ((scan.visits.filterMap pick).map key).Nodup := by
  rw [List.Nodup, List.pairwise_map, List.pairwise_filterMap, List.pairwise_iff_getElem]
  intro index index' below below' less slot picked slot' picked' sameKey
  exact less.ne (sound.index_eq (List.getElem?_eq_getElem below) (List.getElem?_eq_getElem below')
    (picks _ _ picked) (picks _ _ picked') sameKey)

/-- A scan that is over has visited every slot of the table. -/
theorem exists_visit (sound : scan.Sound wants) (finished : scan.Over) {slot : α}
    (member : slot ∈ scan.table.slots) :
    ∃ reads ∈ scan.visits, reads ≠ [] ∧ ∀ other ∈ reads, key other = key slot := by
  obtain ⟨index, below, found⟩ := List.getElem_of_mem member
  have visitedAll : index < scan.visits.length := by
    rw [sound.counted]
    exact below.trans_le finished.2
  obtain ⟨visited, nonempty, _⟩ :=
    sound.visited index _ (List.getElem?_eq_getElem visitedAll)
  refine ⟨_, List.getElem_mem visitedAll, nonempty, fun other inReads => ?_⟩
  have name := visited.named other inReads
  rw [SlotTable.keys, List.getElem?_map, List.getElem?_eq_getElem below, found] at name
  exact (Option.some.inj name).symm

/-- In a table that nobody touches all reads of a visit find the one slot there is. -/
theorem getElem?_of_still (sound : scan.Sound wants) (still : scan.tables = [scan.table])
    {index : Nat} {reads : List α} (found : scan.visits[index]? = some reads) {slot : α}
    (member : slot ∈ reads) : scan.table.slots[index]? = some slot := by
  obtain ⟨visited, _⟩ := sound.visited index reads found
  have name := visited.named slot member
  obtain ⟨table, inTables, inSlots⟩ := visited.witnessed slot member
  rw [still, List.mem_singleton] at inTables
  rw [inTables] at inSlots
  rw [SlotTable.keys, List.getElem?_map, Option.map_eq_some_iff] at name
  obtain ⟨twin, found, sameKey⟩ := name
  rw [found, scan.table.eq_of_key_eq (List.mem_of_getElem? found) inSlots sameKey]

end Sound

/-- Without changes there is one table. -/
theorem tables_of_still {table : SlotTable α key capacity}
    (run : ReflTransGen (Step (fun _ _ => False) wants) (begin table) scan) :
    scan.table = table ∧ scan.tables = [scan.table] := by
  induction run with
  | refl => exact ⟨rfl, rfl⟩
  | tail _ taken ih =>
      cases taken with
      | read more found => exact ih
      | leave visiting enough => exact ih
      | change changed => exact changed.elim

section Progress

variable (changes) {limit : Nat} (bounded : ∀ reads : List α, limit ≤ reads.length →
  wants reads = false) (starts : wants [] = true)

include bounded starts

/-- A visit that nobody disturbs any more comes to its end. -/
theorem exists_left (scan : RereadScan α key capacity)
    (below : scan.index < scan.table.slots.length) :
    ∃ visits, ReflTransGen (Step changes wants) scan
      { scan with index := scan.index + 1, reads := [], visits := visits } := by
  generalize remaining : limit - scan.reads.length = count
  induction count generalizing scan with
  | zero =>
      have enough := bounded scan.reads (Nat.le_of_sub_eq_zero remaining)
      have visiting : scan.reads ≠ [] := by
        intro none
        rw [none, starts] at enough
        cases enough
      exact ⟨_, .single (.leave visiting enough)⟩
  | succ count ih =>
      cases more : wants scan.reads with
      | true =>
          have read : Step changes wants scan _ := .read more (List.getElem?_eq_getElem below)
          obtain ⟨visits, rest⟩ := ih
            { scan with reads := scan.reads ++ [scan.table.slots[scan.index]] } below
            (by rw [List.length_append, List.length_singleton]; omega)
          exact ⟨visits, .head read rest⟩
      | false =>
          have visiting : scan.reads ≠ [] := by
            intro none
            rw [none, starts] at more
            cases more
          exact ⟨_, .single (.leave visiting more)⟩

/-- So does the scan. -/
theorem exists_over (scan : RereadScan α key capacity) (between : scan.reads = []) :
    ∃ last, ReflTransGen (Step changes wants) scan last ∧ last.Over ∧ last.table = scan.table ∧
      last.tables = scan.tables := by
  generalize remaining : scan.table.slots.length - scan.index = count
  induction count generalizing scan with
  | zero => exact ⟨scan, .refl, ⟨between, Nat.le_of_sub_eq_zero remaining⟩, rfl, rfl⟩
  | succ count ih =>
      obtain ⟨visits, left⟩ := exists_left changes bounded starts scan (by omega)
      obtain ⟨last, more, finished, sameTable, sameTables⟩ :=
        ih { scan with index := scan.index + 1, reads := [], visits := visits } rfl
          (by simp only; omega)
      exact ⟨last, left.trans more, finished, sameTable, sameTables⟩

end Progress

end RereadScan

end Hft.Logical
