import ColumnStore.Proofs.Segment.Widening

/-!
# Segments as sheets of cells

All that readers see of a segment is a list of cells and whether there is a mask: its *sheet*
(`Segment.sheet`, `shows_sheet`). Payloads under absent slots and the encoding are nowhere to be
seen.

Putting a value and clearing a slot are done to the sheet, too (`sheet_place_some`,
`sheet_place_none`). Past the end both fill the slots that they skip, but put leaves them absent,
while clear leaves them as zeros where numbers are kept without a mask. Widening changes nothing
(`IsLeastWider.sheet_eq`).
-/

namespace ColumnStore.Segment

/-- The cells of a segment in order, and if it keeps a mask. -/
structure Sheet where
  cells : List (Option Value) := []
  masked : Bool := false

/-- The cells with another one in a slot. If the slot lies past the end, those that are skipped
    hold the gap. -/
def fill (cells : List (Option Value)) (gap : Option Value) (slot : Nat) (cell : Option Value) :
    List (Option Value) :=
  if slot < cells.length then cells.set slot cell
  else cells ++ List.replicate (slot - cells.length) gap ++ [cell]

namespace Sheet

/-- Puts a value in a slot. Slots that are skipped are absent, which numbers need a mask for. -/
def put (kind : Kind) (slot : Nat) (v : Value) (sheet : Sheet) : Sheet where
  cells := fill sheet.cells none slot (some v)
  masked := sheet.masked || kind.isNumeric && sheet.cells.length < slot

/-- Takes the value out of a slot, which numbers need a mask for. Slots that are skipped are
    absent if there was one already, and else they hold the zero of the kind, if it has one. -/
def clear (kind : Kind) (slot : Nat) (sheet : Sheet) : Sheet where
  cells := fill sheet.cells (if sheet.masked then none else kind.zero?) slot none
  masked := sheet.masked || kind.isNumeric

end Sheet

variable {s : Segment} {slot : Nat} {cell : Option Value} {v : Value}

/-- The mask of a segment, if there is one, has an entry for each slot. -/
def Aligned : Segment → Prop
  | .numbers _ slots => ∀ m ∈ slots.mask, m.size = slots.size
  | .objects .. => True

/-- The segment reads as a sheet, in whatever way it is read. -/
structure Shows (s : Segment) (sheet : Sheet) : Prop where
  size_eq : s.size = sheet.cells.length
  hasMask_eq : s.hasMask = sheet.masked
  isAbsent_eq : ∀ slot, s.isAbsent slot = sheet.cells[slot]?.join.isNone
  get?_eq : ∀ slot, s.get? slot = sheet.cells[slot]?.join
  toList_eq : s.toList = sheet.cells
  aligned : s.Aligned

/-- What is seen of a segment. -/
def sheet (s : Segment) : Sheet := ⟨s.toList, s.hasMask⟩

theorem get?_eq_toList (s : Segment) (slot : Nat) : s.get? slot = s.toList[slot]?.join := by
  rw [getElem?_toList]
  split
  · rfl
  · rename_i hslot
    exact get?_of_size_le (Nat.le_of_not_lt hslot)

theorem shows_sheet (s : Segment) : s.Shows s.sheet where
  size_eq := length_toList.symm
  hasMask_eq := rfl
  isAbsent_eq slot := by rw [s.isAbsent_eq, s.get?_eq_toList]; rfl
  get?_eq := s.get?_eq_toList
  toList_eq := rfl
  aligned := by
    cases s with
    | numbers f slots => exact slots.aligned
    | objects kind cells => trivial

/-! ## Writing -/

theorem getElem?_fill (cells : List (Option Value)) (gap : Option Value) (slot : Nat)
    (cell : Option Value) (k : Nat) :
    (fill cells gap slot cell)[k]? = if k = slot then some cell
      else if cells.length ≤ k ∧ k < slot then some gap else cells[k]? := by
  rw [fill]
  split
  · grind
  · grind

/-- What is not refused fills the cells up to its slot. -/
theorem toList_place (hs : s.WellKinded) (h : s.refusal? slot cell = none) :
    (s.place slot cell).toList = fill s.toList (s.gap cell) slot cell := by
  refine List.ext_getElem? ?_
  intro k
  rw [getElem?_toList, size_place h, get?_place hs h, getElem?_fill, length_toList,
    getElem?_toList]
  grind

theorem sheet_place_some (hs : s.WellKinded) (h : s.refusal? slot (some v) = none) :
    (s.place slot (some v)).sheet = s.sheet.put s.kind slot v := by
  rw [sheet, toList_place hs h, hasMask_place hs h, gap_some, Sheet.put, sheet, length_toList]
  rfl

theorem sheet_place_none (hs : s.WellKinded) (h : s.refusal? slot none = none) :
    (s.place slot none).sheet = s.sheet.clear s.kind slot := by
  rw [sheet, toList_place hs h, hasMask_place hs h, Sheet.clear, sheet]
  simp [gap]

/-- In a wider encoding a segment shows the same sheet. -/
theorem IsLeastWider.sheet_eq {w : Segment} (h : s.IsLeastWider v w) : w.sheet = s.sheet := by
  rw [sheet, sheet, h.hasMask_eq, toList, toList, h.size_eq, funext h.get?_eq]

end ColumnStore.Segment
