import ColumnStore.Column.Basic
import ColumnStore.Proofs.Segment.Basic

/-!
# Columns as lists of cells

A *well-formed* column is cut into segments at every multiple of the capacity: its rows lie in
the segments in order, and only the last segment has room left (`Column.WellFormed`). Then
all readers tell what lies in the segments (`Column.cellAt`), and the column is accepted as it
is (`ofSegments_eq`).

`Column.Holds` relates such a column to the list of its cells, in which all of its readers are
told: `get?_eq`, `getInteger?_eq`, `getNumber?_eq`, `isAbsent_eq`, `toList_eq`.
-/

namespace ColumnStore

namespace Segment

theorem capacity_eq : capacity = 4096 := rfl

theorem slotOf_lt (row : Nat) : slotOf row < capacity := Nat.mod_lt _ (by decide)

/-- A row is its segment and its slot. -/
theorem eq_iff_indexOf_slotOf (i j : Nat) :
    i = j ↔ indexOf i = indexOf j ∧ slotOf i = slotOf j := by
  simp only [indexOf, slotOf, capacity_eq]
  omega

end Segment

open Segment

namespace Column

/-- The value that lies in segments for a row. -/
def cellAt (segments : Array Segment) (row : Nat) : Option Value :=
  segments[indexOf row]?.bind (·.get? (slotOf row))

/-- The column is cut into segments at every multiple of the capacity. -/
structure WellFormed (c : Column) : Prop where
  kind_eq : ∀ i (h : i < c.segments.size), c.segments[i].kind = c.kind
  wellKinded : ∀ i (h : i < c.segments.size), c.segments[i].WellKinded
  size_eq : ∀ i (h : i < c.segments.size), c.segments[i].size = min capacity (c.size - i * capacity)
  /-- No row is without a segment. -/
  covered : c.size ≤ c.segments.size * capacity
  /-- No two segments have room left. -/
  tight : (c.segments.size - 1) * capacity ≤ c.size

variable {c : Column} {cells : List (Option Value)}

namespace WellFormed

variable (hc : c.WellFormed)
include hc

theorem indexOf_lt {row : Nat} (h : row < c.size) : indexOf row < c.segments.size := by
  have := hc.covered
  rw [capacity_eq] at this
  rw [indexOf, capacity_eq]
  omega

/-- Past the end lies no value. -/
theorem cellAt_of_size_le {row : Nat} (h : c.size ≤ row) : cellAt c.segments row = none := by
  by_cases hi : indexOf row < c.segments.size
  · have hslot : c.segments[indexOf row].size ≤ slotOf row := by
      rw [hc.size_eq _ hi, indexOf, slotOf, capacity_eq]
      omega
    rw [cellAt, Array.getElem?_eq_getElem hi, Option.bind_some, Segment.get?_of_size_le hslot]
  · rw [cellAt, Array.getElem?_eq_none (Nat.le_of_not_lt hi), Option.bind_none]

/-- A reader that tells no more of a slot than its value tells that of a row. -/
theorem read_eq {α : Type} {f : Segment → Nat → α} {g : Option Value → α} (row : Nat)
    (hf : ∀ s slot, s.WellKinded → f s slot = g (s.get? slot)) :
    c.read (g none) f row = g (cellAt c.segments row) := by
  by_cases hrow : row < c.size
  · have hi := hc.indexOf_lt hrow
    simp only [read, cellAt, hrow, if_true, Array.getElem?_eq_getElem hi, Option.bind_some]
    exact hf _ _ (hc.wellKinded _ hi)
  · rw [read, if_neg hrow, hc.cellAt_of_size_le (Nat.le_of_not_lt hrow)]

theorem get?_eq_cellAt (row : Nat) : c.get? row = cellAt c.segments row :=
  hc.read_eq (g := id) row fun _ _ _ => rfl

end WellFormed

/-- All segments but the last are full. -/
theorem WellFormed.segment_size (hc : c.WellFormed) {i : Nat} (h : i + 1 < c.segments.size) :
    c.segments[i].size = capacity := by
  have htight := hc.tight
  rw [hc.size_eq i (Nat.lt_of_succ_lt h)]
  rw [capacity_eq] at htight ⊢
  omega

/-! ## Acceptance -/

theorem misplacedSegment?_eq_none {kind : Kind} {count i : Nat} {segments : List Segment}
    (h : ∀ j (hj : j < segments.length),
      (i + j + 1 = count ∨ segments[j].size = capacity) ∧ segments[j].kind = kind) :
    misplacedSegment? kind count i segments = none := by
  induction segments generalizing i with
  | nil => rfl
  | cons s rest ih =>
    obtain ⟨hsize, hkind⟩ := h 0 (Nat.zero_lt_succ _)
    have hfull : ¬(i + 1 ≠ count ∧ s.size ≠ capacity) := fun ⟨hi, hs⟩ => hsize.elim hi hs
    have hown : ¬s.kind ≠ kind := fun hne => hne hkind
    rw [misplacedSegment?, if_neg hfull, if_neg hown]
    refine ih ?_
    intro j hj
    obtain ⟨hsize, hkind⟩ := h (j + 1) (Nat.succ_lt_succ hj)
    exact ⟨hsize.imp_left (by omega), hkind⟩

/-- Cut at the multiples of the capacity, rows add up to as many as the segments can take. -/
theorem foldl_size {segments : List Segment} (size total : Nat)
    (h : ∀ j (hj : j < segments.length), segments[j].size = min capacity (size - j * capacity)) :
    segments.foldl (fun n s => n + s.size) total
      = total + min (segments.length * capacity) size := by
  induction segments generalizing size total with
  | nil => simp
  | cons s rest ih =>
    have hs := h 0 (Nat.zero_lt_succ _)
    have hrest : ∀ j (hj : j < rest.length),
        rest[j].size = min capacity (size - capacity - j * capacity) := fun j hj => by
      have := h (j + 1) (Nat.succ_lt_succ hj)
      rw [List.getElem_cons_succ] at this
      rw [this, capacity_eq]
      omega
    rw [List.getElem_cons_zero] at hs
    rw [List.foldl_cons, ih _ _ hrest, hs, List.length_cons, capacity_eq]
    omega

theorem WellFormed.ofSegments_eq (hc : c.WellFormed) :
    ofSegments c.kind c.segments c.size = .ok c := by
  have hplaced : misplacedSegment? c.kind c.segments.size 0 c.segments.toList = none := by
    refine misplacedSegment?_eq_none fun j hj => ?_
    rw [Array.length_toList] at hj
    have htight := hc.tight
    rw [Array.getElem_toList, hc.kind_eq j hj, hc.size_eq j hj]
    rw [capacity_eq] at htight ⊢
    exact ⟨by omega, rfl⟩
  have htotal : c.segments.toList.foldl (fun n s => n + s.size) 0 = c.size := by
    have hcovered := hc.covered
    rw [foldl_size c.size 0 fun j hj => ?_, Array.length_toList]
    · omega
    · rw [Array.getElem_toList]
      exact hc.size_eq j _
  simp only [ofSegments, hplaced, htotal, if_true]

/-! ## Listing -/

/-- In segments of which only the last has room left, a row lies at its slot. -/
theorem getElem?_flatMap_toList {segments : List Segment} (row : Nat)
    (hfull : ∀ j (hj : j + 1 < segments.length), segments[j].size = capacity)
    (hle : ∀ s ∈ segments, s.size ≤ capacity) :
    (segments.flatMap Segment.toList)[row]?
      = segments[indexOf row]?.bind (·.toList[slotOf row]?) := by
  induction segments generalizing row with
  | nil => simp
  | cons s rest ih =>
    have hs := hle s List.mem_cons_self
    rw [List.flatMap_cons]
    by_cases hrow : row < capacity
    · have hi : indexOf row = 0 := Nat.div_eq_of_lt hrow
      have hj : slotOf row = row := Nat.mod_eq_of_lt hrow
      rw [hi, hj, List.getElem?_cons_zero, Option.bind_some]
      by_cases hlen : row < s.toList.length
      · rw [List.getElem?_append_left hlen]
      · rw [length_toList] at hlen
        -- A first segment with room left is the last.
        have hrest : rest = [] := by
          rcases rest with _ | ⟨t, rest⟩
          · rfl
          · have := hfull 0 (by simp)
            rw [List.getElem_cons_zero] at this
            omega
        rw [hrest, List.flatMap_nil, List.append_nil]
    · have hi : indexOf row = indexOf (row - capacity) + 1 := by
        simp only [indexOf, capacity_eq] at hrow ⊢
        omega
      have hj : slotOf row = slotOf (row - capacity) := by
        simp only [slotOf, capacity_eq] at hrow ⊢
        omega
      rw [hi, hj, List.getElem?_cons_succ,
        ← ih (row - capacity) (fun j hj => hfull (j + 1) (Nat.succ_lt_succ hj))
          (fun t ht => hle t (List.mem_cons_of_mem _ ht)),
        List.getElem?_append_right (by rw [length_toList]; omega), length_toList]
      rcases rest with _ | ⟨t, rest⟩
      · rw [List.flatMap_nil, List.getElem?_nil, List.getElem?_nil]
      · have := hfull 0 (by simp)
        rw [List.getElem_cons_zero] at this
        rw [this]

theorem WellFormed.getElem?_toList (hc : c.WellFormed) (row : Nat) :
    c.toList[row]? = if row < c.size then some (c.get? row) else none := by
  rw [toList, getElem?_flatMap_toList row, Array.getElem?_toList]
  · by_cases hi : indexOf row < c.segments.size
    · have hslot : slotOf row < c.segments[indexOf row].size ↔ row < c.size := by
        rw [hc.size_eq _ hi]
        simp only [indexOf, slotOf, capacity_eq]
        omega
      rw [Array.getElem?_eq_getElem hi, Option.bind_some, Segment.getElem?_toList,
        hc.get?_eq_cellAt, cellAt, Array.getElem?_eq_getElem hi, Option.bind_some]
      simp only [hslot]
    · rw [Array.getElem?_eq_none (Nat.le_of_not_lt hi), Option.bind_none,
        if_neg fun hrow => hi (hc.indexOf_lt hrow)]
  · intro j hj
    rw [Array.length_toList] at hj
    rw [Array.getElem_toList, hc.segment_size hj]
  · intro s hs
    obtain ⟨j, hj, rfl⟩ := List.getElem_of_mem hs
    rw [Array.getElem_toList, hc.size_eq j hj]
    omega

/-! ## Cells -/

/-- A well-formed column of a kind holds the cells of a list, row by row. -/
structure Holds (c : Column) (kind : Kind) (cells : List (Option Value)) : Prop extends
    c.WellFormed where
  kind' : c.kind = kind
  size' : c.size = cells.length
  cellAt_eq : ∀ row, cellAt c.segments row = cells[row]?.join

namespace Holds

variable {kind : Kind} (hc : c.Holds kind cells)
include hc

theorem get?_eq (row : Nat) : c.get? row = cells[row]?.join := by
  rw [hc.get?_eq_cellAt, hc.cellAt_eq]

theorem getInteger?_eq (row : Nat) :
    c.getInteger? row = cells[row]?.join.bind Value.integer? := by
  rw [← hc.cellAt_eq]
  exact hc.read_eq (g := fun v? => v?.bind Value.integer?) row fun _ _ => Segment.getInteger?_eq

theorem getNumber?_eq (row : Nat) :
    c.getNumber? row = cells[row]?.join.bind Value.number? := by
  rw [← hc.cellAt_eq]
  exact hc.read_eq (g := fun v? => v?.bind Value.number?) row fun _ _ => Segment.getNumber?_eq

theorem isAbsent_eq (row : Nat) : c.isAbsent row = cells[row]?.join.isNone := by
  rw [← hc.cellAt_eq]
  exact hc.read_eq (g := Option.isNone) row fun _ _ _ => Segment.isAbsent_eq

theorem toList_eq : c.toList = cells := by
  refine List.ext_getElem? ?_
  intro row
  rw [hc.getElem?_toList, hc.get?_eq, hc.size']
  by_cases hrow : row < cells.length
  · rw [if_pos hrow, List.getElem?_eq_getElem hrow, Option.join_some]
  · rw [if_neg hrow, List.getElem?_eq_none (Nat.le_of_not_lt hrow)]

/-- All values in the cells are of the kind. -/
theorem kind_of_mem {v : Value} (hv : some v ∈ cells) : v.kind = kind := by
  obtain ⟨row, hrow, heq⟩ := List.getElem_of_mem hv
  have hi := hc.indexOf_lt (hc.size' ▸ hrow)
  have hcell : c.segments[indexOf row].get? (slotOf row) = some v := by
    have := hc.cellAt_eq row
    rwa [cellAt, Array.getElem?_eq_getElem hi, Option.bind_some, List.getElem?_eq_getElem hrow,
      Option.join_some, heq] at this
  rw [kind_of_get? (hc.wellKinded _ hi) hcell, hc.kind_eq _ hi, hc.kind']

/-- In a column of longs, the bare number of a row is its value. -/
theorem getInteger?_eq_some (hlong : kind = .long) {row : Nat} {n : Int64} :
    c.getInteger? row = some n ↔ c.get? row = some (.long n) := by
  rw [hc.getInteger?_eq, hc.get?_eq]
  cases hcell : cells[row]?.join with
  | none => exact iff_of_false nofun nofun
  | some v =>
    have hv := hc.kind_of_mem (List.mem_of_getElem? (Option.join_eq_some_iff.1 hcell))
    obtain ⟨m, rfl⟩ := Value.exists_long_of_kind (hv.trans hlong)
    rw [Option.bind_some, Value.integer?, Option.some_inj, Option.some_inj, Value.long.injEq]

end Holds

end Column

end ColumnStore
