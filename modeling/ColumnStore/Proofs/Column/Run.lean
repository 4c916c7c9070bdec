import ColumnStore.Proofs.Column.Draft
import ColumnStore.Proofs.Run

/-!
# A column in the making is a list

An edit of a draft (`Edit.apply`) is at the same time one of a plain list of cells
(`Edit.onList`), which takes it exactly if the value is of the kind of the column and the rows
are in the list, and is left as it is otherwise. `run_presents` says that after any edits, those
refused among them, the draft reads as the list does, is built without fail, and reads so as a
column too.

The list alone says what is read; in which encodings the segments are is nowhere to be seen.
-/

namespace ColumnStore.Column

open Segment

/-- A write to a draft. An append without a value skips a row. -/
inductive Edit where
  | append (cell : Option Value)
  | set (row : Nat) (cell : Option Value)
  | swap (i j : Nat)

namespace Edit

/-- The edit of a draft, and whether it was refused. -/
def apply : Edit → Draft → Except WriteError Unit × Draft
  | append cell, d => d.append cell
  | set row cell, d => d.set row cell
  | swap i j, d => d.swap i j

/-- The edit of a list of cells of a kind, and whether the list took it. -/
def onList (kind : Kind) : Edit → List (Option Value) → Bool × List (Option Value)
  | append cell, cells =>
    if ∀ v ∈ cell, v.kind = kind then (true, cells ++ [cell]) else (false, cells)
  | set row cell, cells =>
    if row < cells.length ∧ ∀ v ∈ cell, v.kind = kind then (true, cells.set row cell)
    else (false, cells)
  | swap i j, cells =>
    match cells[i]?, cells[j]? with
    | some atI, some atJ => (true, (cells.set i atJ).set j atI)
    | _, _ => (false, cells)

end Edit

/-- The draft reads as a list of cells. -/
structure Draft.Presents (d : Draft) (cells : List (Option Value)) : Prop where
  size_eq : d.size = cells.length
  get?_eq : ∀ i, d.get? i = cells[i]?.join
  getInteger?_eq : ∀ i, d.getInteger? i = cells[i]?.join.bind Value.integer?
  isAbsent_eq : ∀ i, d.isAbsent i = cells[i]?.join.isNone

/-- The column reads as a list of cells, and has room for more in its last segment alone. -/
structure Presents (c : Column) (kind : Kind) (cells : List (Option Value)) : Prop where
  kind_eq : c.kind = kind
  size_eq : c.size = cells.length
  get?_eq : ∀ i, c.get? i = cells[i]?.join
  getInteger?_eq : ∀ i, c.getInteger? i = cells[i]?.join.bind Value.integer?
  getNumber?_eq : ∀ i, c.getNumber? i = cells[i]?.join.bind Value.number?
  isAbsent_eq : ∀ i, c.isAbsent i = cells[i]?.join.isNone
  toList_eq : c.toList = cells
  segment_size : ∀ i (h : i + 1 < c.segments.size), c.segments[i].size = capacity

variable {kind : Kind} {cells : List (Option Value)}

theorem Holds.presents {c : Column} (hc : c.Holds kind cells) : c.Presents kind cells where
  kind_eq := hc.kind'
  size_eq := hc.size'
  get?_eq := hc.get?_eq
  getInteger?_eq := hc.getInteger?_eq
  getNumber?_eq := hc.getNumber?_eq
  isAbsent_eq := hc.isAbsent_eq
  toList_eq := hc.toList_eq
  segment_size := fun _ h => hc.segment_size h

namespace Draft

variable {d : Draft}

theorem Holds.presents (hd : d.Holds kind cells) : d.Presents cells where
  size_eq := hd.size_eq_length
  get?_eq := hd.get?_eq
  getInteger?_eq := hd.getInteger?_eq
  isAbsent_eq := hd.isAbsent_eq

/-! ## Edits -/

/-- An edit of the draft is one of the list that it holds, and refused when the list does not
    take it. -/
theorem Holds.apply (edit : Edit) (hd : d.Holds kind cells) :
    (edit.apply d).1.isOk = (edit.onList kind cells).1 ∧
      (edit.apply d).2.Holds kind (edit.onList kind cells).2 := by
  cases edit with
  | append cell =>
    by_cases hcell : ∀ v ∈ cell, v.kind = kind
    · obtain ⟨d', happend, hd'⟩ := hd.append cell hcell
      rw [Edit.apply, Edit.onList, if_pos hcell, happend]
      exact ⟨rfl, hd'⟩
    · obtain ⟨v, rfl, hv⟩ : ∃ v, cell = some v ∧ v.kind ≠ kind := by simpa using hcell
      obtain ⟨name, happend, hd'⟩ := hd.append_of_kind_ne hv
      rw [Edit.apply, Edit.onList, if_neg hcell, happend]
      exact ⟨rfl, hd'⟩
  | set row cell =>
    by_cases hrow : row < cells.length
    · by_cases hcell : ∀ v ∈ cell, v.kind = kind
      · obtain ⟨d', hset, hd'⟩ := hd.set hrow hcell
        rw [Edit.apply, Edit.onList, if_pos ⟨hrow, hcell⟩, hset]
        exact ⟨rfl, hd'⟩
      · obtain ⟨v, rfl, hv⟩ : ∃ v, cell = some v ∧ v.kind ≠ kind := by simpa using hcell
        obtain ⟨name, hset⟩ := hd.set_of_kind_ne hrow hv
        rw [Edit.apply, Edit.onList, if_neg fun h => hcell h.2, hset]
        exact ⟨rfl, hd⟩
    · rw [Edit.apply, Edit.onList, if_neg fun h => hrow h.1, Draft.set, hd.pastEnd?_eq_some hrow]
      exact ⟨rfl, hd⟩
  | swap i j =>
    by_cases hij : i < cells.length ∧ j < cells.length
    · obtain ⟨d', hswap, hd'⟩ := hd.swap hij.1 hij.2
      rw [Edit.apply, Edit.onList, List.getElem?_eq_getElem hij.1, List.getElem?_eq_getElem hij.2,
        hswap]
      exact ⟨rfl, hd'⟩
    · obtain ⟨e, hswap⟩ := hd.swap_of_not hij
      have hnone : (Edit.swap i j).onList kind cells = (false, cells) := by
        rw [Edit.onList]
        split
        · rename_i hi hj
          exact absurd ⟨(List.getElem?_eq_some_iff.1 hi).1, (List.getElem?_eq_some_iff.1 hj).1⟩ hij
        · rfl
      rw [Edit.apply, hnone, hswap]
      exact ⟨rfl, hd⟩

/-- After any edits of a new draft and of the empty list, the list has taken what the draft has
    not refused, and the draft, the column that it is built to and the one that is peeked at all
    read as the list. -/
theorem run_presents (kind : Kind) (edits : List Edit) :
    let (results, d) := run Edit.apply edits { kind }
    let (taken, cells) := run (Edit.onList kind) edits []
    results.map Except.isOk = taken ∧ d.Presents cells ∧
      ∃ c, d.build = .ok c ∧ d.peek = .ok c ∧ c.Presents kind cells := by
  obtain ⟨htaken, hd⟩ := run_related (fun d cells => Holds d kind cells) Except.isOk
    (P := fun _ => True) (fun _ _ _ => trivial) (fun edit _ _ h _ => Holds.apply edit h) edits
    (holds_nil kind) trivial
  exact ⟨htaken, hd.presents, _, hd.build_eq, hd.peek_eq, Column.Holds.presents hd⟩

end Draft

end ColumnStore.Column
