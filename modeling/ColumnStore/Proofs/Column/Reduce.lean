import ColumnStore.Proofs.Column.Refusal

/-!
# Reductions of columns as lists of cells

A column is reduced segment by segment, so the result shows where its segments end. As long as
each of them has a row (`Column.NoSpare`), they end at the multiples of the capacity, and the
column reduces to what its cells alone say (`Holds.reduce_eq`): the numbers of each chunk of
cells are folded, and the results combined in order (`reduceCells`). Nothing is assumed of how
numbers are folded and results combined.
-/

namespace ColumnStore

open Segment

variable {β : Type}

/-- The numbers among cells. -/
def numbersOf (cells : List (Option Value)) : List Double :=
  cells.filterMap (·.bind Value.number?)

/-- The cells of rows in the `k`-th segment. -/
def chunk (cells : List (Option Value)) (k : Nat) : List (Option Value) :=
  (cells.drop (k * capacity)).take capacity

/-- How many segments cells take, the last of which need not be full. -/
def chunkCount (cells : List (Option Value)) : Nat := (cells.length + (capacity - 1)) / capacity

/-- Folds the numbers of each chunk of cells from the start on, and combines the results, from
    the start on, too. -/
def reduceCells (cells : List (Option Value)) (start : β) (push : β → Double → β)
    (combine : β → β → β) : β :=
  (List.range (chunkCount cells)).foldl
    (fun acc k => combine acc ((numbersOf (chunk cells k)).foldl push start)) start

/-- A segment folds the numbers among its values. -/
theorem Segment.fold_eq {s : Segment} (hs : s.WellKinded) (start : β) (push : β → Double → β) :
    s.fold start push = (numbersOf s.toList).foldl push start := by
  have hnumber (slot : Nat) : s.getNumber? slot = (s.get? slot).bind Value.number? :=
    getNumber?_eq hs
  simp only [fold, numbersOf, toList, List.filterMap_map, List.foldl_filterMap, Function.comp_def,
    hnumber]
  congr 1
  funext acc slot
  cases (s.get? slot).bind Value.number? <;> rfl

namespace Column

variable {c : Column} {kind : Kind} {cells : List (Option Value)}

/-- Each segment has a row. -/
def NoSpare (c : Column) : Prop := c.segments.size * capacity < c.size + capacity

namespace Holds

variable (hc : c.Holds kind cells)
include hc

/-- A segment has the cells of its rows. -/
theorem toList_segment {k : Nat} (hk : k < c.segments.size) :
    c.segments[k].toList = chunk cells k := by
  refine List.ext_getElem? fun slot => ?_
  rw [getElem?_toList, hc.size_eq k hk, hc.size', chunk, List.getElem?_take, List.getElem?_drop]
  by_cases hslot : slot < capacity
  · have hindex : indexOf (k * capacity + slot) = k := by
      rw [indexOf, capacity_eq] at *
      omega
    have hsame : slotOf (k * capacity + slot) = slot := by
      rw [slotOf, capacity_eq] at *
      omega
    have hcell : c.segments[k].get? slot = cells[k * capacity + slot]?.join := by
      rw [← hc.cellAt_eq, cellAt, hindex, hsame, Array.getElem?_eq_getElem hk, Option.bind_some]
    by_cases hrow : k * capacity + slot < cells.length
    · rw [if_pos (by omega), if_pos hslot, hcell, List.getElem?_eq_getElem hrow, Option.join_some]
    · rw [if_neg (by omega), if_pos hslot, List.getElem?_eq_none (Nat.le_of_not_lt hrow)]
  · rw [if_neg (by omega), if_neg hslot]

/-- There are as many segments as the rows take. -/
theorem size_segments (hspare : c.NoSpare) : c.segments.size = chunkCount cells := by
  have hcovered := hc.covered
  rw [NoSpare] at hspare
  rw [hc.size'] at hspare hcovered
  rw [chunkCount]
  rw [capacity_eq] at *
  omega

/-- A column reduces to what its cells say. -/
theorem reduce_eq (hspare : c.NoSpare) (start : β) (push : β → Double → β)
    (combine : β → β → β) :
    c.reduce start push combine = reduceCells cells start push combine := by
  have hfolds : c.segments.toList.map (fun s => s.fold start push)
      = (List.range (chunkCount cells)).map
        fun k => (numbersOf (chunk cells k)).foldl push start := by
    refine List.ext_getElem ?_ fun k hk _ => ?_
    · rw [List.length_map, List.length_map, List.length_range, Array.length_toList,
        hc.size_segments hspare]
    · rw [List.length_map, Array.length_toList] at hk
      rw [List.getElem_map, List.getElem_map, List.getElem_range, Array.getElem_toList,
        Segment.fold_eq (hc.wellKinded k hk), hc.toList_segment hk]
  rw [reduce, ColumnStore.reduce, hfolds, List.foldl_map]
  rfl

end Holds

end Column

end ColumnStore
