import ColumnStore.Proofs.Column.Refusal
import ColumnStore.Proofs.Segment.Narrowest

/-!
# As narrow as the history allows

To the list of cells that a draft is (`Edit.onList`) a *history* adds all writes that were ever
taken, also those that later ones cover (`History`). It settles the encoding of each segment: the
narrowest for all that was written to its rows, and with a mask if some of it was no value
(`Fitted`). Opening a segment and writing keep this up (`Fitted.openSegment`, `Fitted.write`), so
each edit does (`Fitted.apply`), and so do runs (`run_narrowest`).

The two writes of a swap count like any others, though it adds no value to those of the column.
-/

namespace ColumnStore.Column

open Segment

/-- The rows that an edit writes if a list of cells of a kind takes it, and what comes there. -/
def Edit.writes (kind : Kind) (cells : List (Option Value)) : Edit → List (Nat × Option Value)
  | append cell => if ∀ v ∈ cell, v.kind = kind then [(cells.length, cell)] else []
  | set row cell =>
    if row < cells.length ∧ ∀ v ∈ cell, v.kind = kind then [(row, cell)] else []
  | swap i j =>
    match cells[i]?, cells[j]? with
    | some atI, some atJ => if i = j then [] else [(i, atJ), (j, atI)]
    | _, _ => []

/-- A list of cells, and all that was ever written to it. -/
structure History where
  cells : List (Option Value) := []
  writes : List (Nat × Option Value) := []

/-- The edit of a list of cells with its history, and whether it was taken. -/
def Edit.record (kind : Kind) (edit : Edit) (h : History) : Bool × History :=
  let (taken, cells) := edit.onList kind h.cells
  (taken, ⟨cells, h.writes ++ edit.writes kind h.cells⟩)

/-- What writes bring to the rows of a segment. -/
def writtenTo (index : Nat) (writes : List (Nat × Option Value)) : List (Option Value) :=
  (writes.filter fun w => indexOf w.1 = index).map Prod.snd

theorem writtenTo_append (index : Nat) (writes writes' : List (Nat × Option Value)) :
    writtenTo index (writes ++ writes') = writtenTo index writes ++ writtenTo index writes' := by
  rw [writtenTo, List.filter_append, List.map_append, ← writtenTo, ← writtenTo]

theorem writtenTo_singleton (index row : Nat) (cell : Option Value) :
    writtenTo index [(row, cell)] = if indexOf row = index then [cell] else [] := by
  by_cases h : indexOf row = index <;> simp [writtenTo, h]

theorem mem_writtenTo {index : Nat} {writes : List (Nat × Option Value)} {cell : Option Value} :
    cell ∈ writtenTo index writes ↔ ∃ w ∈ writes, indexOf w.1 = index ∧ w.2 = cell := by
  simp [writtenTo]

/-- Each segment suits what was written to its rows, and nothing was written elsewhere. -/
structure Fitted (segments : Array Segment) (kind : Kind) (writes : List (Nat × Option Value)) :
    Prop where
  isFitted : ∀ i (h : i < segments.size), segments[i].IsFitted kind (writtenTo i writes)
  indexOf_lt : ∀ w ∈ writes, indexOf w.1 < segments.size

namespace Fitted

variable {d : Draft} {kind : Kind} {cells : List (Option Value)}
  {writes : List (Nat × Option Value)} {row : Nat} {cell : Option Value}

theorem nil (kind : Kind) : Fitted #[] kind [] where
  isFitted _ := nofun
  indexOf_lt _ := nofun

/-- Nothing was written to the rows of a segment that is opened. -/
theorem openSegment (h : Fitted d.segments kind writes) (hkind : d.kind = kind) :
    Fitted d.openSegment.segments kind writes := by
  rw [Draft.openSegment]
  split
  · refine ⟨fun i hi => ?_, fun w hw => ?_⟩
    · rw [Array.getElem_push]
      split
      · rename_i hold
        exact h.isFitted i hold
      · rename_i hnew
        have hnone : writtenTo i writes = [] := by
          refine List.eq_nil_iff_forall_not_mem.2 fun cell hcell => ?_
          obtain ⟨w, hw, rfl, -⟩ := mem_writtenTo.1 hcell
          exact hnew (h.indexOf_lt w hw)
        rw [hnone, hkind]
        exact isFitted_narrow kind
    · rw [Array.size_push]
      exact Nat.lt_succ_of_lt (h.indexOf_lt w hw)
  · exact h

/-- A write changes the segment of its row alone, which suits the cell, too, then. -/
theorem write (h : Fitted d.segments kind writes) (hd : d.now.WellFormed)
    (hi : indexOf row < d.segments.size) (hrow : row ≤ d.size)
    (hcell : ∀ v, cell = some v → v.kind = kind) :
    Fitted (d.write row cell).2.segments kind (writes ++ [(row, cell)]) := by
  have hslot : slotOf row ≤ d.segments[indexOf row].size := by
    have hsize : d.segments[indexOf row].size = min capacity (d.size - indexOf row * capacity) :=
      hd.size_eq _ hi
    rw [hsize]
    simp only [indexOf, slotOf, capacity_eq]
    omega
  have hwritten := (h.isFitted _ hi).write (hd.wellKinded _ hi) hslot (slotOf_lt row) hcell
  rw [Draft.write_eq hi rfl]
  refine ⟨fun i hlt => ?_, fun w hw => ?_⟩
  · rw [writtenTo_append, writtenTo_singleton, Array.getElem_set]
    split
    · rename_i heq
      subst heq
      exact hwritten
    · rw [List.append_nil]
      exact h.isFitted i _
  · rw [Array.size_set]
    rcases List.mem_append.1 hw with hw | hw
    · exact h.indexOf_lt w hw
    · rw [List.mem_singleton.1 hw]
      exact hi

theorem append (h : Fitted d.segments kind writes) (hd : d.Holds kind cells)
    (hcell : ∀ v, cell = some v → v.kind = kind) :
    Fitted (d.append cell).2.segments kind (writes ++ [(cells.length, cell)]) := by
  have hsegments :
      (d.append cell).2.segments = (d.openSegment.write d.size cell).2.segments := by
    rw [Draft.append]
    split <;> rename_i hwrite <;> rw [hwrite]
  obtain ⟨opened, hopen, hwf, hi, -⟩ := Draft.openSegment_spec hd.toWellFormed
  have hopened := h.openSegment hd.kind_eq
  rw [hsegments, ← hd.size_eq_length]
  rw [hopen] at hopened ⊢
  exact hopened.write hwf hi (Nat.le_refl _) hcell

theorem write_of_lt (h : Fitted d.segments kind writes) (hd : d.Holds kind cells)
    (hrow : row < cells.length) (hcell : ∀ v, cell = some v → v.kind = kind) :
    Fitted (d.write row cell).2.segments kind (writes ++ [(row, cell)]) := by
  have hlt : row < d.size := hd.size_eq_length ▸ hrow
  exact h.write hd.toWellFormed (hd.toWellFormed.indexOf_lt hlt) (Nat.le_of_lt hlt) hcell

theorem set (h : Fitted d.segments kind writes) (hd : d.Holds kind cells)
    (hrow : row < cells.length) (hcell : ∀ v, cell = some v → v.kind = kind) :
    Fitted (d.set row cell).2.segments kind (writes ++ [(row, cell)]) := by
  rw [Draft.set, hd.pastEnd?_eq_none hrow]
  exact h.write_of_lt hd hrow hcell

theorem swap {i j : Nat} (h : Fitted d.segments kind writes) (hd : d.Holds kind cells)
    (hi : i < cells.length) (hj : j < cells.length) (hij : i ≠ j) :
    Fitted (d.swap i j).2.segments kind (writes ++ [(i, cells[j]), (j, cells[i])]) := by
  obtain ⟨d₁, hwrite, hd₁, hswap⟩ := hd.exists_swap hi hj hij
  have hfirst := h.write_of_lt hd hi fun v => hd.kind_of_getElem hj
  rw [hwrite] at hfirst
  rw [hswap, ← List.singleton_append, ← List.append_assoc]
  exact hfirst.write_of_lt hd₁ (by rwa [List.length_set]) fun v => hd.kind_of_getElem hi

/-- What an edit brings is written by the draft, too. -/
theorem apply (h : Fitted d.segments kind writes) (hd : d.Holds kind cells) (edit : Edit) :
    Fitted (edit.apply d).2.segments kind (writes ++ edit.writes kind cells) := by
  cases edit with
  | append cell =>
    rw [Edit.apply, Edit.writes]
    by_cases hcell : ∀ v ∈ cell, v.kind = kind
    · rw [if_pos hcell]
      exact h.append hd hcell
    · obtain ⟨v, rfl, hv⟩ : ∃ v, cell = some v ∧ v.kind ≠ kind := by simpa using hcell
      obtain ⟨name, happend, -⟩ := hd.append_of_kind_ne hv
      rw [if_neg hcell, List.append_nil, happend]
      exact h.openSegment hd.kind_eq
  | set row cell =>
    rw [Edit.apply, Edit.writes]
    by_cases hrow : row < cells.length
    · by_cases hcell : ∀ v ∈ cell, v.kind = kind
      · rw [if_pos ⟨hrow, hcell⟩]
        exact h.set hd hrow hcell
      · obtain ⟨v, rfl, hv⟩ : ∃ v, cell = some v ∧ v.kind ≠ kind := by simpa using hcell
        obtain ⟨name, hset⟩ := hd.set_of_kind_ne hrow hv
        rwa [if_neg fun h => hcell h.2, List.append_nil, hset]
    · rwa [if_neg fun h => hrow h.1, List.append_nil, Draft.set, hd.pastEnd?_eq_some hrow]
  | swap i j =>
    rw [Edit.apply, Edit.writes]
    by_cases hlt : i < cells.length ∧ j < cells.length
    · simp only [List.getElem?_eq_getElem hlt.1, List.getElem?_eq_getElem hlt.2]
      by_cases hij : i = j
      · subst hij
        rwa [if_pos rfl, List.append_nil, hd.swap_self hlt.1]
      · rw [if_neg hij]
        exact h.swap hd hlt.1 hlt.2 hij
    · obtain ⟨e, hswap⟩ := hd.swap_of_not hlt
      rw [hswap]
      split
      · rename_i hi hj
        exact absurd ⟨(List.getElem?_eq_some_iff.1 hi).1, (List.getElem?_eq_some_iff.1 hj).1⟩ hlt
      · rwa [List.append_nil]

end Fitted

namespace Draft

variable {d : Draft} {kind : Kind} {cells : List (Option Value)}
  {writes : List (Nat × Option Value)}

/-- No edit takes a segment away. -/
theorem size_le_apply (d : Draft) (edit : Edit) :
    d.segments.size ≤ (edit.apply d).2.segments.size := by
  cases hedit : edit.isAppend with
  | false => exact Nat.le_of_eq (shape_apply hedit d).2.symm
  | true =>
    obtain ⟨cell, rfl⟩ : ∃ cell, edit = .append cell := by
      cases edit <;> first | exact ⟨_, rfl⟩ | cases hedit
    have hopen : d.segments.size ≤ d.openSegment.segments.size := by
      rw [openSegment]
      split
      · rw [Array.size_push]
        exact Nat.le_succ _
      · exact Nat.le_refl _
    have hwrite := (shape_write d.openSegment d.size cell).2
    rw [← hwrite] at hopen
    rw [Edit.apply, append]
    split <;> rename_i h <;> rwa [h] at hopen

/-- By the writes no segment gets a narrower encoding, and none to whose rows they bring no value
    another one. -/
def Widens (d : Draft) (writes : List (Nat × Option Value)) (d' : Draft) : Prop :=
  ∀ i e, d.encodings[i]? = some e → ∃ e', d'.encodings[i]? = some e' ∧ ¬e'.Narrower e ∧
    ((∀ w ∈ writes, indexOf w.1 = i → w.2 = none) → e' = e)

theorem widens_apply (h : Fitted d.segments kind writes) (hd : d.Holds kind cells) (edit : Edit) :
    d.Widens (edit.writes kind cells) (edit.apply d).2 := by
  intro i e he
  have h' := h.apply hd edit
  rw [Draft.encodings, List.getElem?_map, Array.getElem?_toList] at he
  obtain ⟨s, hs, rfl⟩ := Option.map_eq_some_iff.1 he
  obtain ⟨hi, rfl⟩ := Array.getElem?_eq_some_iff.1 hs
  have hi' := Nat.lt_of_lt_of_le hi (size_le_apply d edit)
  have hold := (h.isFitted i hi).narrowest
  have hnew := (h'.isFitted i hi').narrowest
  rw [writtenTo_append] at hnew
  refine ⟨(edit.apply d).2.segments[i].encoding, ?_, ?_, fun hnone => ?_⟩
  · rw [Draft.encodings, List.getElem?_map, Array.getElem?_toList,
      Array.getElem?_eq_getElem hi', Option.map_some]
  · exact hold.not_narrower hnew fun v hv => List.mem_append_left _ hv
  · refine (hold.unique hnew fun v => ⟨fun hv => List.mem_append_left _ hv, fun hv => ?_⟩).symm
    rcases List.mem_append.1 hv with hv | hv
    · exact hv
    · obtain ⟨w, hw, hindex, hvalue⟩ := mem_writtenTo.1 hv
      rw [hnone w hw hindex] at hvalue
      cases hvalue

/-- After any edits of a new draft each segment is in the narrowest encoding of its kind that
    represents all values that were ever written to its rows, and a segment of numbers has a mask
    if and only if a write brought no value there. One more edit makes no encoding narrower, and
    changes none to whose rows it writes no value. -/
theorem run_narrowest (kind : Kind) (edits : List Edit) :
    let (results, d) := run Edit.apply edits { kind }
    let (taken, h) := run (Edit.record kind) edits {}
    results.map Except.isOk = taken ∧ d.Presents h.cells ∧
      Fitted d.segments kind h.writes ∧
      ∀ edit : Edit, d.Widens (edit.writes kind h.cells) (edit.apply d).2 := by
  have step (edit : Edit) (d : Draft) (h : History)
      (hrel : d.Holds kind h.cells ∧ Fitted d.segments kind h.writes) (_ : True) :
      (edit.apply d).1.isOk = (edit.record kind h).1 ∧
        (edit.apply d).2.Holds kind (edit.record kind h).2.cells ∧
        Fitted (edit.apply d).2.segments kind (edit.record kind h).2.writes :=
    ⟨(hrel.1.apply edit).1, (hrel.1.apply edit).2, hrel.2.apply hrel.1 edit⟩
  obtain ⟨htaken, hd, hfitted⟩ := run_related _ Except.isOk (fun _ _ _ => trivial) step edits
    (s := { kind }) (t := {}) ⟨holds_nil kind, .nil kind⟩ trivial
  exact ⟨htaken, hd.presents, hfitted, widens_apply hfitted hd⟩

end Draft

end ColumnStore.Column
