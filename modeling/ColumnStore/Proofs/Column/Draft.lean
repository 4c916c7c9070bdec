import ColumnStore.Column.Draft
import ColumnStore.Proofs.Column.Basic

/-!
# Drafts of columns as lists of cells

A draft holds a list of cells when the column that it would be now does (`Draft.Holds`), and
then it is built without fail (`Holds.build_eq`). Every way to write to a draft changes the
list as it says, in the segments of whatever formats the cells lie:

* `Holds.append`: a cell of the kind comes at the end, in a new segment if need be;
* `Holds.set`: a cell of the kind takes the place of a row;
* `Holds.swap`: two rows change places.

A value of another kind is refused, and the list is as before (`Holds.append_of_kind_ne`,
`Holds.set_of_kind_ne`), though an append may have opened a segment.
-/

namespace ColumnStore.Column

open Segment

namespace Draft

/-- The column that the draft would be now. -/
abbrev now (d : Draft) : Column := ⟨d.kind, d.segments, d.size⟩

/-- The draft holds the cells of a list, row by row. -/
def Holds (d : Draft) (kind : Kind) (cells : List (Option Value)) : Prop := d.now.Holds kind cells

variable {d : Draft} {row : Nat} {cell : Option Value}

/-- A new draft holds no cells. -/
theorem holds_nil (kind : Kind) : Holds { kind } kind [] where
  kind_eq _ := nofun
  wellKinded _ := nofun
  size_eq _ := nofun
  covered := Nat.zero_le _
  tight := Nat.le_of_eq (Nat.zero_mul _)
  kind' := rfl
  size' := rfl
  cellAt_eq _ := rfl

/-! ## Writing to segments -/

/-- Writing to a row changes its segment alone. -/
theorem write_eq {t : Segment} {result : Except WriteError Unit}
    (hi : indexOf row < d.segments.size)
    (h : d.segments[indexOf row].write (slotOf row) cell = (result, t)) :
    d.write row cell = (result, { d with segments := d.segments.set (indexOf row) t }) := by
  simp only [write, hi, dif_pos, takeOut, Array.swapAt_def, h]
  congr 2
  rw [Array.setIfInBounds_def, dif_pos (by simpa using hi), Array.set_set]

/-- The segments after one of them was replaced. -/
theorem cellAt_set {segments : Array Segment} {t : Segment} (hi : indexOf row < segments.size)
    (ht : segments[indexOf row].IsWritten (slotOf row) cell t) (k : Nat) :
    cellAt (segments.set (indexOf row) t) k = if k = row then cell else cellAt segments k := by
  simp only [eq_iff_indexOf_slotOf k row]
  by_cases hk : indexOf k = indexOf row
  · rw [cellAt, cellAt, hk, Array.getElem?_set_self, Option.bind_some, ht.get?,
      Array.getElem?_eq_getElem hi, Option.bind_some]
    simp only [true_and]
  · rw [cellAt, cellAt, Array.getElem?_set_ne hi (Ne.symm hk), if_neg fun h => hk h.1]

/-- A cell of the kind is written to any row up to the one right past the end, if there is a
    segment for it. -/
theorem exists_write (hd : d.now.WellFormed) (hi : indexOf row < d.segments.size)
    (hrow : row ≤ d.size) (hcell : ∀ v, cell = some v → v.kind = d.kind) :
    ∃ segments, d.write row cell = (.ok (), { d with segments }) ∧
      WellFormed ⟨d.kind, segments, max d.size (row + 1)⟩ ∧
      ∀ k, cellAt segments k = if k = row then cell else cellAt d.segments k := by
  have hkind : d.segments[indexOf row].kind = d.kind := hd.kind_eq _ hi
  have hsize (i : Nat) (hlt : i < d.segments.size) :
      d.segments[i].size = min capacity (d.size - i * capacity) := hd.size_eq i hlt
  have hcovered : d.size ≤ d.segments.size * capacity := hd.covered
  have htight : (d.segments.size - 1) * capacity ≤ d.size := hd.tight
  have hslot : slotOf row ≤ d.segments[indexOf row].size := by
    rw [hsize _ hi]
    simp only [indexOf, slotOf, capacity_eq]
    omega
  obtain ⟨t, hwrite, ht⟩ := Segment.exists_write (hd.wellKinded _ hi) hslot (slotOf_lt row)
    (hkind ▸ hcell)
  have hlt {i : Nat} (h : i < (d.segments.set (indexOf row) t).size) : i < d.segments.size := by
    rwa [Array.size_set] at h
  refine ⟨d.segments.set (indexOf row) t, write_eq hi hwrite, ⟨?_, ?_, ?_, ?_, ?_⟩,
    cellAt_set hi ht⟩
  · intro i h
    dsimp only
    rw [Array.getElem_set]
    split
    · exact ht.kind.trans hkind
    · exact hd.kind_eq i (hlt h)
  · intro i h
    dsimp only
    rw [Array.getElem_set]
    split
    · exact ht.wellKinded
    · exact hd.wellKinded i (hlt h)
  · intro i h
    have hi' := hlt h
    dsimp only
    rw [Array.getElem_set]
    split
    · subst i
      rw [ht.size]
      simp only [hsize, indexOf, slotOf, capacity_eq]
      omega
    · -- The row lies in another segment, so this one was full or lies past the row.
      rename_i hne
      rw [hsize i hi']
      simp only [indexOf, capacity_eq] at hne hi htight ⊢
      omega
  · simp only [Array.size_set, indexOf, capacity_eq] at hi hcovered ⊢
    omega
  · simp only [Array.size_set, capacity_eq] at htight ⊢
    omega

/-- There is a segment for the next row once one was opened if need be. -/
theorem openSegment_spec (hd : d.now.WellFormed) :
    ∃ segments, d.openSegment = { d with segments } ∧ WellFormed ⟨d.kind, segments, d.size⟩ ∧
      indexOf d.size < segments.size ∧ ∀ k, cellAt segments k = cellAt d.segments k := by
  have hcovered : d.size ≤ d.segments.size * capacity := hd.covered
  have htight : (d.segments.size - 1) * capacity ≤ d.size := hd.tight
  by_cases hfull : d.segments.size = indexOf d.size
  · have hlt {i : Nat} (h : i < (d.segments.push (narrow d.kind)).size) :
        i < d.segments.size ∨ i = d.segments.size := by
      rw [Array.size_push] at h
      omega
    -- Any segment is an old one or the one that was opened, which is empty.
    refine ⟨d.segments.push (narrow d.kind), by simp only [openSegment, hfull, if_true],
      ⟨?_, ?_, ?_, ?_, ?_⟩, ?_, ?_⟩
    · intro i h
      dsimp only
      rcases hlt h with hi | rfl
      · rw [Array.getElem_push_lt hi]
        exact hd.kind_eq i hi
      · rw [Array.getElem_push_eq, kind_narrow]
    · intro i h
      dsimp only
      rcases hlt h with hi | rfl
      · rw [Array.getElem_push_lt hi]
        exact hd.wellKinded i hi
      · rw [Array.getElem_push_eq]
        exact wellKinded_narrow d.kind
    · intro i h
      dsimp only
      rcases hlt h with hi | rfl
      · rw [Array.getElem_push_lt hi]
        exact hd.size_eq i hi
      · rw [Array.getElem_push_eq, size_narrow]
        rw [capacity_eq] at hcovered ⊢
        omega
    · rw [Array.size_push]
      exact Nat.le_trans hcovered (Nat.mul_le_mul_right _ (Nat.le_succ _))
    · simp only [Array.size_push, indexOf, capacity_eq] at hfull ⊢
      omega
    · rw [Array.size_push]
      omega
    · intro k
      rw [cellAt, cellAt, Array.getElem?_push]
      split
      · rename_i hk
        rw [hk, Option.bind_some, Array.getElem?_eq_none (Nat.le_refl _), Option.bind_none]
        exact Segment.get?_of_size_le (by rw [size_narrow]; exact Nat.zero_le _)
      · rfl
  · refine ⟨d.segments, by simp only [openSegment, hfull, if_false], hd, ?_, fun _ => rfl⟩
    simp only [indexOf, capacity_eq] at hfull hcovered htight ⊢
    omega

/-- A value of another kind is refused before anything is written. -/
theorem write_of_kind_ne {v : Value} (hd : d.now.WellFormed) (hi : indexOf row < d.segments.size)
    (hv : v.kind ≠ d.kind) :
    ∃ name, d.write row (some v) = (.error (.wrongKind v name), d) := by
  have hkind : d.segments[indexOf row].kind = d.kind := hd.kind_eq _ hi
  refine ⟨d.segments[indexOf row].encoding.name, ?_⟩
  rw [write_eq hi (Segment.write_of_kind_ne (hkind ▸ hv)), Array.set_getElem_self]

/-! ## Cells -/

/-- One more member of a list comes right past the end. -/
theorem getElem?_concat {α : Type} (xs : List α) (x : α) (p : Nat) :
    (xs ++ [x])[p]? = if p = xs.length then some x else xs[p]? := by
  rcases Nat.lt_trichotomy p xs.length with hp | rfl | hp
  · rw [if_neg (Nat.ne_of_lt hp), List.getElem?_append_left hp]
  · rw [if_pos rfl, List.getElem?_concat_length]
  · rw [if_neg (Nat.ne_of_gt hp), List.getElem?_eq_none (Nat.le_of_lt hp),
      List.getElem?_eq_none (by rw [List.length_append]; exact hp)]

namespace Holds

variable {kind : Kind} {cells : List (Option Value)} {v : Value} (hd : d.Holds kind cells)
include hd

theorem size_eq_length : d.size = cells.length := hd.size'

theorem kind_eq : d.kind = kind := hd.kind'

theorem get?_eq (i : Nat) : d.get? i = cells[i]?.join := Column.Holds.get?_eq hd i

theorem getInteger?_eq (i : Nat) : d.getInteger? i = cells[i]?.join.bind Value.integer? :=
  Column.Holds.getInteger?_eq hd i

theorem isAbsent_eq (i : Nat) : d.isAbsent i = cells[i]?.join.isNone :=
  Column.Holds.isAbsent_eq hd i

/-- A cell of the kind takes the place of a row. -/
theorem write (hrow : row < cells.length) (hcell : ∀ v, cell = some v → v.kind = kind) :
    ∃ d', d.write row cell = (.ok (), d') ∧ d'.Holds kind (cells.set row cell) := by
  have hlt : row < d.size := hd.size_eq_length ▸ hrow
  obtain ⟨segments, hwrite, hwf, hcells⟩ := exists_write hd.toWellFormed
    (hd.toWellFormed.indexOf_lt hlt) (Nat.le_of_lt hlt) (hd.kind_eq ▸ hcell)
  rw [Nat.max_eq_left hlt] at hwf
  refine ⟨_, hwrite, hwf, hd.kind_eq, ?_, ?_⟩
  · rw [List.length_set]
    exact hd.size'
  · intro k
    refine (hcells k).trans ?_
    rw [hd.cellAt_eq, List.getElem?_set]
    by_cases hk : k = row
    · rw [if_pos hk, if_pos hk.symm, if_pos hrow, Option.join_some]
    · rw [if_neg hk, if_neg (Ne.symm hk)]

/-- A cell of the kind is appended. -/
theorem append (cell : Option Value) (hcell : ∀ v, cell = some v → v.kind = kind) :
    ∃ d', d.append cell = (.ok (), d') ∧ d'.Holds kind (cells ++ [cell]) := by
  obtain ⟨opened, hopen, hwf, hi, hsame⟩ := openSegment_spec hd.toWellFormed
  obtain ⟨segments, hwrite, hwf, hcells⟩ := exists_write (d := { d with segments := opened }) hwf
    hi (Nat.le_refl _) (hd.kind_eq ▸ hcell)
  rw [Nat.max_eq_right (Nat.le_succ _)] at hwf
  refine ⟨⟨d.kind, segments, d.size + 1⟩, ?_, hwf, hd.kind_eq, ?_, ?_⟩
  · simp only [Draft.append, hopen, hwrite]
  · rw [List.length_append, List.length_singleton, ← hd.size_eq_length]
  · intro k
    refine (hcells k).trans ?_
    rw [hsame, hd.cellAt_eq, hd.size_eq_length, getElem?_concat]
    split <;> rfl

/-- Opening a segment changes no cell. -/
theorem openSegment : d.openSegment.Holds kind cells := by
  obtain ⟨opened, hopen, hwf, -, hsame⟩ := openSegment_spec hd.toWellFormed
  rw [hopen]
  exact ⟨hwf, hd.kind_eq, hd.size', fun k => (hsame k).trans (hd.cellAt_eq k)⟩

/-- A value of another kind is not appended. All that may stay of the try is a new segment. -/
theorem append_of_kind_ne (hv : v.kind ≠ kind) :
    ∃ name, d.append (some v) = (.error (.wrongKind v name), d.openSegment) ∧
      d.openSegment.Holds kind cells := by
  obtain ⟨opened, hopen, hwf, hi, -⟩ := openSegment_spec hd.toWellFormed
  obtain ⟨name, hwrite⟩ := write_of_kind_ne (d := { d with segments := opened }) hwf hi
    (hd.kind_eq ▸ hv)
  refine ⟨name, ?_, hd.openSegment⟩
  rw [Draft.append, hopen, hwrite]

theorem pastEnd?_eq_none (hrow : row < cells.length) : d.pastEnd? row = none :=
  if_pos (hd.size_eq_length ▸ hrow)

theorem pastEnd?_eq_some (hrow : ¬row < cells.length) :
    d.pastEnd? row = some (.outOfRange row d.size) :=
  if_neg (hd.size_eq_length ▸ hrow)

theorem set (hrow : row < cells.length) (hcell : ∀ v, cell = some v → v.kind = kind) :
    ∃ d', d.set row cell = (.ok (), d') ∧ d'.Holds kind (cells.set row cell) := by
  rw [Draft.set, hd.pastEnd?_eq_none hrow]
  exact hd.write hrow hcell

theorem set_of_kind_ne (hrow : row < cells.length) (hv : v.kind ≠ kind) :
    ∃ name, d.set row (some v) = (.error (.wrongKind v name), d) := by
  rw [Draft.set, hd.pastEnd?_eq_none hrow]
  exact write_of_kind_ne hd.toWellFormed
    (hd.toWellFormed.indexOf_lt (show row < d.size from hd.size_eq_length ▸ hrow))
    (hd.kind_eq ▸ hv)

/-- What the draft holds in a row is of its kind, so it can be written anywhere. -/
theorem kind_of_get? {i : Nat} (hv : d.get? i = some v) : v.kind = kind := by
  rw [hd.get?_eq] at hv
  exact Column.Holds.kind_of_mem hd (List.mem_of_getElem? (Option.join_eq_some_iff.1 hv))

theorem kind_of_getElem {i : Nat} (hi : i < cells.length) (hv : cells[i] = some v) :
    v.kind = kind := Column.Holds.kind_of_mem hd (hv ▸ List.getElem_mem hi)

/-- Two rows change places by two writes. What the second brings was read before the first. -/
theorem exists_swap {i j : Nat} (hi : i < cells.length) (hj : j < cells.length) (hij : i ≠ j) :
    ∃ d₁, d.write i cells[j] = (.ok (), d₁) ∧ d₁.Holds kind (cells.set i cells[j]) ∧
      d.swap i j = d₁.write j cells[i] := by
  have hcell (k : Nat) (hk : k < cells.length) : d.get? k = cells[k] := by
    rw [hd.get?_eq, List.getElem?_eq_getElem hk, Option.join_some]
  have hpast : (d.pastEnd? i <|> d.pastEnd? j) = none := by
    rw [hd.pastEnd?_eq_none hi, hd.pastEnd?_eq_none hj]
    rfl
  obtain ⟨d₁, hwrite, hd₁⟩ := hd.write hi fun v => hd.kind_of_getElem hj
  refine ⟨d₁, hwrite, hd₁, ?_⟩
  simp only [Draft.swap, hpast, hij, hcell i hi, hcell j hj, hwrite, if_false]

/-- A row changes places with itself. -/
theorem swap_self {i : Nat} (hi : i < cells.length) : d.swap i i = (.ok (), d) := by
  simp only [Draft.swap, hd.pastEnd?_eq_none hi, Option.orElse_eq_orElse, Option.orElse_eq_or,
    Option.or_none, if_true]

/-- Two rows change places. -/
theorem swap {i j : Nat} (hi : i < cells.length) (hj : j < cells.length) :
    ∃ d', d.swap i j = (.ok (), d') ∧ d'.Holds kind ((cells.set i cells[j]).set j cells[i]) := by
  by_cases hij : i = j
  · subst hij
    refine ⟨d, hd.swap_self hi, ?_⟩
    rwa [List.set_set, List.set_getElem_self]
  · obtain ⟨d₁, -, hd₁, hswap⟩ := hd.exists_swap hi hj hij
    obtain ⟨d₂, hwrite, hd₂⟩ := hd₁.write (by rwa [List.length_set]) fun v => hd.kind_of_getElem hi
    exact ⟨d₂, hswap.trans hwrite, hd₂⟩

/-- A swap with a row past the end is refused. -/
theorem swap_of_not {i j : Nat} (hij : ¬(i < cells.length ∧ j < cells.length)) :
    ∃ e, d.swap i j = (.error e, d) := by
  by_cases hi : i < cells.length
  · refine ⟨.outOfRange j d.size, ?_⟩
    rw [Draft.swap, hd.pastEnd?_eq_none hi, hd.pastEnd?_eq_some fun hj => hij ⟨hi, hj⟩]
    rfl
  · refine ⟨.outOfRange i d.size, ?_⟩
    rw [Draft.swap, hd.pastEnd?_eq_some hi]
    rfl

/-! ## Building -/

theorem peek_eq : d.peek = .ok d.now := hd.toWellFormed.ofSegments_eq

/-- Compacting changes nothing, so the draft is built as it is. -/
theorem build_eq : d.build = .ok d.now := by
  have : d.segments.map compact = d.segments := by
    rw [funext (f := compact) (g := id) fun _ => compact_eq, Array.map_id]
  rw [Draft.build, this]
  exact hd.peek_eq

end Holds

end Draft

end ColumnStore.Column
