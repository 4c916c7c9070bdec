import ColumnStore.Proofs.Column.Run
import ColumnStore.Reduce
import Mathlib.Data.List.Induction

/-!
# Refused appends

An append opens a segment before it looks at the value, so one that is refused may leave a
segment behind in which there is nothing. It does so exactly if all segments were full, and the
rows stay as they were. The next append takes such a *spare* segment into use
(`append_openSegment`), and no other edit comes near it (`apply_openSegment`).

So edits lead to the same draft as without their refused appends (`kept`), unless all segments
are full and the last append was refused: then there is a spare segment more (`run_kept`).
-/

namespace ColumnStore

/-- A segment more at the end is combined last. -/
theorem reduce_concat {β : Type} (segments : List Segment) (s : Segment) (start : β)
    (push : β → Double → β) (combine : β → β → β) :
    reduce (segments ++ [s]) start push combine
      = combine (reduce segments start push combine) (s.fold start push) := by
  rw [reduce, List.map_append, List.foldl_append]
  rfl

/-- An empty segment folds to the start. -/
theorem Segment.fold_narrow {β : Type} (kind : Kind) (start : β) (push : β → Double → β) :
    (narrow kind).fold start push = start := by
  rw [fold, size_narrow, List.range_zero, List.foldl_nil]

end ColumnStore

namespace ColumnStore.Column

open Segment

namespace Edit

/-- The edit appends a row. -/
def isAppend : Edit → Bool
  | append _ => true
  | set .. | swap .. => false

/-- The edits but for the appends that were refused, and what each of them gave. -/
def kept (edits : List Edit) (results : List (Except WriteError Unit)) :
    List (Edit × Except WriteError Unit) :=
  select (fun edit result => !edit.isAppend || result.isOk) edits results

/-- The last of the appends was refused. -/
def lastRefused (edits : List Edit) (results : List (Except WriteError Unit)) : Bool :=
  (select (fun edit _ => edit.isAppend) edits results).getLast?.any (!·.2.isOk)

theorem lastRefused_concat {edits : List Edit} {results : List (Except WriteError Unit)}
    (h : edits.length = results.length) (edit : Edit) (result : Except WriteError Unit) :
    lastRefused (edits ++ [edit]) (results ++ [result])
      = if edit.isAppend then !result.isOk else lastRefused edits results := by
  rw [lastRefused, select_concat h]
  split
  · rw [List.getLast?_concat, Option.any_some]
  · rw [List.append_nil, lastRefused]

end Edit

namespace Draft

variable {d : Draft} {row : Nat} {cell : Option Value} {kind : Kind} {cells : List (Option Value)}

/-! ## Spare segments -/

/-- The draft with an empty segment at the end. -/
def withSpare (d : Draft) : Draft := { d with segments := d.segments.push (narrow d.kind) }

/-- Each segment has a row. -/
def NoSpare (d : Draft) : Prop := d.segments.size * capacity < d.size + capacity

theorem size_openSegment (d : Draft) : d.openSegment.size = d.size := by
  rw [openSegment]
  split <;> rfl

theorem openSegment_openSegment (d : Draft) : d.openSegment.openSegment = d.openSegment := by
  obtain ⟨kind, segments, size⟩ := d
  by_cases hfull : segments.size = indexOf size
  · have hroom : ¬(segments.push (narrow kind)).size = indexOf size := by
      rw [Array.size_push]
      omega
    simp only [openSegment, hfull, if_true, hroom, if_false]
  · simp only [openSegment, hfull, if_false]

/-- A segment is opened when all others are full. -/
theorem openSegment_eq (hd : d.Holds kind cells) (hspare : d.NoSpare) :
    d.openSegment = if capacity ∣ d.size then d.withSpare else d := by
  have hcovered : d.size ≤ d.segments.size * capacity := hd.covered
  have hfull : d.segments.size = indexOf d.size ↔ capacity ∣ d.size := by
    rw [NoSpare] at hspare
    rw [indexOf]
    rw [capacity_eq] at *
    omega
  simp only [openSegment, hfull, withSpare]

/-- An append takes a spare segment into use. -/
theorem append_openSegment (d : Draft) (cell : Option Value) :
    d.openSegment.append cell = d.append cell := by
  rw [append, append, size_openSegment, openSegment_openSegment]

/-! ## Writes beside a spare segment -/

/-- A write to a row takes place in the same segment, with or without a spare one. -/
theorem write_openSegment (hi : indexOf row < d.segments.size) (cell : Option Value) :
    d.openSegment.write row cell = ((d.write row cell).1, (d.write row cell).2.openSegment) := by
  obtain ⟨kind, segments, size⟩ := d
  replace hi : indexOf row < segments.size := hi
  rcases hwrite : segments[indexOf row].write (slotOf row) cell with ⟨result, t⟩
  have hold : write ⟨kind, segments, size⟩ row cell
      = (result, ⟨kind, segments.set (indexOf row) t, size⟩) := write_eq hi hwrite
  rw [hold]
  by_cases hfull : segments.size = indexOf size
  · have hi' : indexOf row < (segments.push (narrow kind)).size := by
      rw [Array.size_push]
      exact Nat.lt_succ_of_lt hi
    have hnew : write ⟨kind, segments.push (narrow kind), size⟩ row cell
        = (result, ⟨kind, (segments.push (narrow kind)).set (indexOf row) t, size⟩) :=
      write_eq hi' (by rw [Array.getElem_push_lt hi, hwrite])
    have hset : (segments.push (narrow kind)).set (indexOf row) t hi'
        = (segments.set (indexOf row) t).push (narrow kind) := by
      rw [Array.set_push, dif_pos hi]
    simp only [openSegment, hfull, Array.size_set, if_true, hnew, hset]
  · simp only [openSegment, hfull, Array.size_set, if_false, hold]

theorem Holds.write_openSegment (hd : d.Holds kind cells) (hrow : row < cells.length)
    (cell : Option Value) :
    d.openSegment.write row cell = ((d.write row cell).1, (d.write row cell).2.openSegment) :=
  Draft.write_openSegment (hd.toWellFormed.indexOf_lt (hd.size' ▸ hrow)) cell

theorem pastEnd?_openSegment (d : Draft) (row : Nat) :
    d.openSegment.pastEnd? row = d.pastEnd? row := by
  rw [pastEnd?, pastEnd?, size_openSegment]

/-- No edit but an append comes near a spare segment. -/
theorem Holds.apply_openSegment (hd : d.Holds kind cells) {edit : Edit}
    (hedit : edit.isAppend = false) :
    edit.apply d.openSegment = ((edit.apply d).1, (edit.apply d).2.openSegment) := by
  have hlt {row : Nat} (hrow : d.pastEnd? row = none) : row < cells.length := by
    by_contra hlt
    rw [hd.pastEnd?_eq_some hlt] at hrow
    cases hrow
  cases edit with
  | append cell => cases hedit
  | set row cell =>
    rw [Edit.apply, Edit.apply, Draft.set, Draft.set, pastEnd?_openSegment]
    cases hrow : d.pastEnd? row with
    | some e => rfl
    | none => exact hd.write_openSegment (hlt hrow) cell
  | swap i j =>
    rw [Edit.apply, Edit.apply, Draft.swap, Draft.swap, pastEnd?_openSegment,
      pastEnd?_openSegment]
    cases hi : d.pastEnd? i with
    | some e => rfl
    | none =>
      cases hj : d.pastEnd? j with
      | some e => rfl
      | none =>
        by_cases hij : i = j
        · simp [hij]
        -- Both rows are read before the first write, and after it the draft still holds cells.
        · have hkind (v : Value) (hv : d.get? j = some v) : v.kind = kind := hd.kind_of_get? hv
          obtain ⟨d₁, hd₁, hholds₁⟩ := hd.write (hlt hi) hkind
          have hget (row : Nat) : d.openSegment.get? row = d.get? row := by
            rw [hd.openSegment.get?_eq, hd.get?_eq]
          have hfirst := hd.write_openSegment (hlt hi) (d.get? j)
          rw [hd₁] at hfirst
          simp only [Option.orElse_eq_orElse, Option.orElse_eq_or, Option.or_none, hij, if_false,
            hget, hfirst, hd₁]
          exact hholds₁.write_openSegment (by rw [List.length_set]; exact hlt hj) (d.get? i)

/-! ## What a spare segment changes -/

/-- All that tells a draft with a spare segment from the one without. -/
structure ShowsSpare (spared d : Draft) : Prop where
  size_eq : spared.size = d.size
  get?_eq : ∀ row, spared.get? row = d.get? row
  encodings_eq : spared.encodings = d.encodings ++ [(narrow d.kind).encoding]
  /-- What is built and what is peeked at has the segment too, and so has each reduction. -/
  columns : ∃ c c', d.build = .ok c ∧ d.peek = .ok c ∧
    spared.build = .ok c' ∧ spared.peek = .ok c' ∧
    c' = { c with segments := c.segments.push (narrow d.kind) } ∧
    ∀ {β : Type} (start : β) (push : β → Double → β) (combine : β → β → β),
      c'.reduce start push combine = combine (c.reduce start push combine) start

theorem showsSpare_withSpare (hd : d.Holds kind cells) (hspare : d.withSpare.Holds kind cells) :
    d.withSpare.ShowsSpare d where
  size_eq := rfl
  get?_eq row := by rw [hspare.get?_eq, hd.get?_eq]
  encodings_eq := by
    rw [encodings, encodings, withSpare, Array.toList_push, List.map_append, List.map_singleton]
  columns := by
    refine ⟨d.now, d.withSpare.now, hd.build_eq, hd.peek_eq, hspare.build_eq, hspare.peek_eq, rfl,
      fun start push combine => ?_⟩
    rw [Column.reduce, Column.reduce, withSpare, Array.toList_push, reduce_concat, fold_narrow]

/-! ## Runs -/

theorem shape_write (d : Draft) (row : Nat) (cell : Option Value) :
    (d.write row cell).2.size = d.size ∧
      (d.write row cell).2.segments.size = d.segments.size := by
  by_cases hi : indexOf row < d.segments.size
  · rw [write_eq hi rfl]
    exact ⟨rfl, Array.size_set hi⟩
  · rw [write, dif_neg hi]
    exact ⟨rfl, rfl⟩

/-- No edit but an append changes how many rows and segments there are. -/
theorem shape_apply {edit : Edit} (hedit : edit.isAppend = false) (d : Draft) :
    (edit.apply d).2.size = d.size ∧ (edit.apply d).2.segments.size = d.segments.size := by
  cases edit with
  | append cell => cases hedit
  | set row cell =>
    rw [Edit.apply, Draft.set]
    split
    · exact ⟨rfl, rfl⟩
    · exact shape_write d row cell
  | swap i j =>
    rw [Edit.apply, Draft.swap]
    split
    · exact ⟨rfl, rfl⟩
    · split
      · exact ⟨rfl, rfl⟩
      · have hfirst := shape_write d i (d.get? j)
        dsimp only
        split
        · rename_i hwrite
          rwa [hwrite] at hfirst
        · rename_i hwrite
          rw [hwrite] at hfirst
          rw [← hfirst.1, ← hfirst.2]
          exact shape_write _ j (d.get? i)

/-- An append that is taken gives the segment for it a row. -/
theorem NoSpare.append {d' : Draft} (hspare : d.NoSpare) (h : d.append cell = (.ok (), d')) :
    d'.NoSpare := by
  obtain ⟨hsize, hsegments⟩ := shape_write d.openSegment d.size cell
  -- Before the row is there, only the segment that is opened for it can be without one.
  have hopen : d.openSegment.segments.size * capacity ≤ d.size + capacity := by
    rw [NoSpare] at hspare
    rw [openSegment]
    split
    · rename_i hfull
      rw [Array.size_push, hfull, indexOf, capacity_eq]
      omega
    · exact Nat.le_of_lt hspare
  rw [Draft.append] at h
  split at h
  · rename_i kind segments size hwrite
    rw [hwrite] at hsize hsegments
    replace hsize : size = d.size := hsize.trans d.size_openSegment
    replace hsegments : segments.size = d.openSegment.segments.size := hsegments
    cases h
    change segments.size * capacity < size + 1 + capacity
    rw [hsegments, hsize]
    omega
  · cases h

/-- What edits make of a draft, and what they make of it but for the appends that were refused.
    The one has a segment opened if no append was taken since the last that was refused. -/
structure OpenedIf (kind : Kind) (refused : Bool) (d d' : Draft) : Prop where
  holds : ∃ cells, d'.Holds kind cells
  noSpare : d'.NoSpare
  eq_openSegment : d = if refused then d'.openSegment else d'

namespace OpenedIf

variable {refused : Bool} {d' : Draft} (h : OpenedIf kind refused d d')
include h

theorem append_eq (cell : Option Value) : d.append cell = d'.append cell := by
  rw [h.eq_openSegment]
  split
  · exact append_openSegment d' cell
  · rfl

theorem append (hcell : ∀ v ∈ cell, v.kind = kind) :
    ∃ d₁, d.append cell = (.ok (), d₁) ∧ d'.append cell = (.ok (), d₁) ∧
      OpenedIf kind false d₁ d₁ := by
  obtain ⟨cells, hd'⟩ := h.holds
  obtain ⟨d₁, happend, hd₁⟩ := hd'.append cell hcell
  exact ⟨d₁, (h.append_eq cell).trans happend, happend, ⟨_, hd₁⟩, h.noSpare.append happend, rfl⟩

theorem append_of_kind_ne {v : Value} (hv : v.kind ≠ kind) :
    ∃ name, d.append (some v) = (.error (.wrongKind v name), d'.openSegment) ∧
      OpenedIf kind true d'.openSegment d' := by
  obtain ⟨cells, hd'⟩ := h.holds
  obtain ⟨name, happend, -⟩ := hd'.append_of_kind_ne hv
  exact ⟨name, (h.append_eq _).trans happend, ⟨cells, hd'⟩, h.noSpare, rfl⟩

theorem apply {edit : Edit} (hedit : edit.isAppend = false) :
    (edit.apply d).1 = (edit.apply d').1 ∧
      OpenedIf kind refused (edit.apply d).2 (edit.apply d').2 := by
  obtain ⟨cells, hd'⟩ := h.holds
  obtain ⟨hsize, hsegments⟩ := shape_apply hedit d'
  have hspare : (edit.apply d').2.NoSpare := by
    rw [NoSpare, hsize, hsegments]
    exact h.noSpare
  have heq : edit.apply d = ((edit.apply d').1,
      if refused then (edit.apply d').2.openSegment else (edit.apply d').2) := by
    rw [h.eq_openSegment]
    split
    · exact hd'.apply_openSegment hedit
    · rfl
  rw [heq]
  exact ⟨rfl, ⟨_, (hd'.apply edit).2⟩, hspare, rfl⟩

theorem size_eq : d.size = d'.size := by
  rw [h.eq_openSegment]
  split
  · exact d'.size_openSegment
  · rfl

/-- A segment that was opened is a spare one if all others are full. -/
theorem spare :
    if capacity ∣ d.size ∧ refused then d = d'.withSpare ∧ d.ShowsSpare d' else d = d' := by
  obtain ⟨cells, hd'⟩ := h.holds
  have hopen := openSegment_eq hd' h.noSpare
  have hheld := hd'.openSegment
  rw [h.size_eq]
  by_cases hfull : capacity ∣ d'.size
  · rw [if_pos hfull] at hopen
    rw [hopen] at hheld
    cases refused with
    | false => simpa using h.eq_openSegment
    | true =>
      have heq : d = d'.withSpare := h.eq_openSegment.trans hopen
      rw [if_pos ⟨hfull, rfl⟩]
      exact ⟨heq, heq ▸ showsSpare_withSpare hd' hheld⟩
  · rw [if_neg hfull] at hopen
    rw [if_neg fun hspare => hfull hspare.1]
    have heq := h.eq_openSegment
    rwa [hopen, ite_self] at heq

end OpenedIf

/-- Without the appends that were refused, the other edits give what they gave, and lead to the
    same draft but for a segment that the last append may have opened. -/
theorem run_openedIf (kind : Kind) (edits : List Edit) :
    let (results, d) := run Edit.apply edits { kind }
    ∃ d', run Edit.apply ((Edit.kept edits results).map Prod.fst) { kind }
        = ((Edit.kept edits results).map Prod.snd, d') ∧
      OpenedIf kind (Edit.lastRefused edits results) d d' := by
  induction edits using List.reverseRecOn with
  | nil =>
    exact ⟨{ kind }, rfl, ⟨[], holds_nil kind⟩, (by decide : 0 * capacity < 0 + capacity), rfl⟩
  | append_singleton edits edit ih =>
    have hlen := (length_run (f := Edit.apply) edits { kind : Draft }).symm
    obtain ⟨d', hrun, h⟩ := ih
    rw [run_concat]
    generalize run Edit.apply edits { kind } = ran at *
    obtain ⟨results, d⟩ := ran
    dsimp only at *
    rw [Edit.lastRefused_concat hlen, Edit.kept, select_concat hlen, ← Edit.kept]
    -- An append makes the two drafts one again, or is left out on the one side.
    cases hedit : edit.isAppend with
    | false =>
      obtain ⟨hresult, hopened⟩ := h.apply hedit
      refine ⟨(edit.apply d').2, ?_, hopened⟩
      simp [run_concat, hrun, hresult]
    | true =>
      obtain ⟨cell, rfl⟩ : ∃ cell, edit = .append cell := by
        cases edit <;> first | exact ⟨_, rfl⟩ | cases hedit
      by_cases hcell : ∀ v ∈ cell, v.kind = kind
      · obtain ⟨d₁, happend, happend', hopened⟩ := h.append hcell
        refine ⟨d₁, ?_, ?_⟩
        · simp [run_concat, hrun, Edit.apply, happend, happend', Except.isOk, Except.toBool]
        · simp [Edit.apply, happend, Except.isOk, Except.toBool, hopened]
      · obtain ⟨v, rfl, hv⟩ : ∃ v, cell = some v ∧ v.kind ≠ kind := by simpa using hcell
        obtain ⟨name, happend, hopened⟩ := h.append_of_kind_ne hv
        refine ⟨d', ?_, ?_⟩
        · simp [hrun, Edit.apply, happend, Except.isOk, Except.toBool]
        · simp [Edit.apply, happend, Except.isOk, Except.toBool, hopened]

/-- After any edits of a new draft: without the appends that were refused, the others give what
    they gave, and they lead to the same draft, unless its segments are full and the last append
    was refused; then the draft has a spare segment more. So an append that is refused next
    leaves the draft as it is, unless its segments are full and there is no spare one yet. -/
theorem run_kept (kind : Kind) (edits : List Edit) :
    let (results, d) := run Edit.apply edits { kind }
    let kept := Edit.kept edits results
    let refused := Edit.lastRefused edits results
    let (results', d') := run Edit.apply (kept.map Prod.fst) { kind }
    results' = kept.map Prod.snd ∧
      (if capacity ∣ d.size ∧ refused then d = d'.withSpare ∧ d.ShowsSpare d' else d = d') ∧
      ∀ v : Value, v.kind ≠ kind → ∃ name d₁, d.append (some v) = (.error (.wrongKind v name), d₁) ∧
        if capacity ∣ d.size ∧ ¬refused then d₁ = d.withSpare ∧ d₁.ShowsSpare d else d₁ = d := by
  have := run_openedIf kind edits
  generalize run Edit.apply edits { kind } = ran at *
  obtain ⟨results, d⟩ := ran
  obtain ⟨d', hrun, h⟩ := this
  dsimp only
  rw [hrun]
  refine ⟨rfl, h.spare, fun v hv => ?_⟩
  obtain ⟨name, happend, hopened⟩ := h.append_of_kind_ne hv
  refine ⟨name, d'.openSegment, happend, ?_⟩
  have heq := h.eq_openSegment
  cases hrefused : Edit.lastRefused edits results with
  | false =>
    rw [hrefused, if_neg Bool.false_ne_true] at heq
    rw [heq]
    simpa [d'.size_openSegment] using hopened.spare
  | true =>
    rw [hrefused, if_pos rfl] at heq
    rw [if_neg fun hspare => hspare.2 rfl, heq]

/-- A truth value is refused by a new draft of longs, and yet there is a segment then, in the
    encodings, in the column that is peeked at and in what it reduces to. -/
theorem append_bool_opens_segment :
    let d : Draft := { kind := .long }
    let refused := d.append (some (.bool true))
    refused.1.isOk = false ∧ d.encodings = [] ∧ refused.2.encodings = [.numbers .long16] ∧
      d.peek.map (·.reduce 1 (fun n _ => n) (· + ·)) = .ok 1 ∧
      refused.2.peek.map (·.reduce 1 (fun n _ => n) (· + ·)) = .ok 2 :=
  ⟨by decide, by decide, by decide, by rfl, by rfl⟩

end Draft

end ColumnStore.Column
