import ColumnStore.Proofs.Column.Layout
import ColumnStore.Proofs.Column.Reduce
import ColumnStore.Proofs.Table.Atomic
import ColumnStore.Proofs.Table.Parts

/-!
# Reductions tell the rows alone

A column is reduced segment by segment, and functions can be chosen that show where a segment ends.
Still nothing but the rows of a table can be told from its reductions (`run_reduce`):

* No column of a draft ever has a segment without a row (`Draft.NoSpare.addCall`). An append that is
  refused would leave one behind, but what is no value for an attribute is told before anything is
  appended.
* Sorting a draft, peeking at it and building it keep the segments (`Draft.NoSpare.sort`,
  `Draft.NoSpare.peek`, `Draft.NoSpare.build`).
* The segments of a table then end at the multiples of the capacity, and their numbers are those of
  the rows, whatever the encodings (`Holds.reducesRows`).
-/

namespace ColumnStore

namespace Column.Draft.NoSpare

variable {d d' : Draft} (h : d.NoSpare)
include h

/-- No edit but an append can leave a segment without a row. -/
theorem apply (edit : Edit) (hedit : edit.isAppend = false) : (edit.apply d).2.NoSpare := by
  obtain ⟨hsize, hsegments⟩ := shape_apply hedit d
  rwa [NoSpare, hsize, hsegments]

theorem exchange {pairs : List (Nat × Nat)} (hexchange : d.exchange pairs = .ok d') :
    d'.NoSpare := by
  induction pairs generalizing d with
  | nil =>
    cases hexchange
    exact h
  | cons pair rest ih =>
    obtain ⟨i, j⟩ := pair
    have hswap := h.apply (.swap i j) rfl
    rw [Edit.apply] at hswap
    rw [Draft.exchange] at hexchange
    split at hexchange
    · cases hexchange
    · rename_i heq
      rw [heq] at hswap
      exact ih hswap hexchange

theorem peek {c : Column} (hpeek : d.peek = .ok c) : c.NoSpare := by
  obtain ⟨-, rfl⟩ := ofSegments_eq_ok_iff.1 hpeek
  exact h

theorem build {c : Column} (hbuild : d.build = .ok c) : c.NoSpare := by
  obtain ⟨-, rfl⟩ := ofSegments_eq_ok_iff.1 hbuild
  rwa [Column.NoSpare, Array.size_map]

end Column.Draft.NoSpare

namespace Table

/-- Each segment of each column has a row. -/
def NoSpare (t : Table) : Prop := ∀ c ∈ t.allColumns, c.NoSpare

namespace Draft

variable {d d' : Draft} {t : Table}

/-- Each segment of each column has a row. -/
def NoSpare (d : Draft) : Prop := ∀ c ∈ d.ids :: d.columns, c.NoSpare

/-- What a write keeps where it is not refused is kept in all columns when none refuses. -/
theorem forall_mem_writeCells
    (write : Column.Draft → Option Value → Except WriteError Unit × Column.Draft)
    {P : Column.Draft → Prop} {columns : List Column.Draft} (cells : List (Option Value))
    (hwrite : ∀ c cell c', P c → write c cell = (.ok (), c') → P c')
    (h : ∀ c ∈ columns, P c) (hok : (writeCells write columns cells).1 = .ok ()) :
    ∀ c ∈ (writeCells write columns cells).2, P c := by
  induction columns generalizing cells with
  | nil => exact h
  | cons c columns ih =>
    cases cells with
    | nil => exact h
    | cons cell cells =>
      obtain ⟨hc, hcolumns⟩ := List.forall_mem_cons.1 h
      rw [writeCells] at hok ⊢
      rcases hwritten : write c cell with ⟨_ | _, c'⟩
      · rw [hwritten] at hok
        cases hok
      · rw [hwritten] at hok
        exact List.forall_mem_cons.2 ⟨hwrite c cell c' hc hwritten, ih cells hcolumns hok⟩

namespace NoSpare

variable (h : d.NoSpare)
include h

theorem appendRow {id : Int64} {cells : List (Option Value)}
    (hwrite : ∀ e, (d.appendRow id cells).1 ≠ .error (.write e)) :
    (d.appendRow id cells).2.NoSpare := by
  obtain ⟨hids, hcolumns⟩ := List.forall_mem_cons.1 h
  revert hwrite
  rw [Draft.appendRow]
  by_cases hfull : maxRows ≤ d.size
  · rw [if_pos hfull]
    exact fun _ => h
  · rw [if_neg hfull]
    rcases happend : d.ids.append (some (.long id)) with ⟨e | _, ids⟩
    · exact fun hwrite => absurd rfl (hwrite e)
    · have hkept := forall_mem_writeCells Column.Draft.append cells
        (fun _ _ _ hc happend => Column.Draft.NoSpare.append hc happend) hcolumns
      rcases hwritten : writeCells Column.Draft.append d.columns cells with ⟨e | _, columns⟩
      · exact fun hwrite => absurd rfl (hwrite e)
      · rw [hwritten] at hkept
        exact fun _ => List.forall_mem_cons.2 ⟨hids.append happend, hkept rfl⟩

theorem overwriteRow {row : Nat} {cells : List (Option Value)}
    (hwrite : ∀ e, (d.overwriteRow row cells).1 ≠ .error (.write e)) :
    (d.overwriteRow row cells).2.NoSpare := by
  obtain ⟨hids, hcolumns⟩ := List.forall_mem_cons.1 h
  revert hwrite
  rw [Draft.overwriteRow]
  dsimp only
  have hkept := forall_mem_writeCells (fun c cell => c.set row cell) cells
    (fun c cell c' hc hset => by
      have := Column.Draft.NoSpare.apply hc (.set row cell) rfl
      rwa [Column.Edit.apply, hset] at this) hcolumns
  rcases hwritten : writeCells (fun c cell => c.set row cell) d.columns cells with ⟨e | _, columns⟩
  · exact fun hwrite => absurd rfl (hwrite e)
  · rw [hwritten] at hkept
    exact fun _ => List.forall_mem_cons.2 ⟨hids, hkept rfl⟩

/-- No add leaves a segment without a row, unless a column refuses its cell. -/
theorem addCall {call : AddCall} (hwrite : ∀ e, (addCall call d).1 ≠ .error (.write e)) :
    (Draft.addCall call d).2.NoSpare := by
  revert hwrite
  rw [Draft.addCall, add]
  cases cellsOf d.schema (Entity.fields call.value) with
  | error e => exact fun _ => h
  | ok cells =>
    cases d.standing (Entity.id call.value) with
    | next => exact h.appendRow
    | late => exact appendRow (d := d.scatter) h
    | held row =>
      cases call.replace with
      | false => exact fun _ => h
      | true => exact h.overwriteRow
    | known => cases call.replace <;> exact fun _ => h

theorem sort (hsort : d.sort = .ok d') : d'.NoSpare := by
  obtain ⟨-, -, hexchange⟩ := exists_of_sort hsort
  exact forall_mem_of_forall₂ (fun _ _ hc => Column.Draft.NoSpare.exchange hc) h hexchange

theorem peek (hpeek : d.peek = .ok t) : t.NoSpare :=
  (makes_of_peek hpeek).forall_mem (fun _ _ hc => Column.Draft.NoSpare.peek hc) h

theorem build (hbuild : d.build = .ok t) : t.NoSpare := by
  have hmade {d' : Draft} (h' : d'.NoSpare) (hmakes : d'.Makes Column.Draft.build t) : t.NoSpare :=
    hmakes.forall_mem (fun _ _ hc => Column.Draft.NoSpare.build hc) h'
  cases hsorted : d.isSorted with
  | true => exact hmade h (makes_of_build hsorted hbuild)
  | false =>
    obtain ⟨d', hsort, hmakes⟩ := exists_of_build hsorted hbuild
    exact hmade (h.sort hsort) hmakes

end NoSpare

end Draft

/-! ## Reductions -/

/-- Each reduction tells the kind of the attribute and its values in the rows, and nothing else. -/
def ReducesRows (t : Table) : Prop :=
  ∀ {β : Type} (name : String) (start : β) (push : β → Double → β) (combine : β → β → β),
    t.reduce name start push combine =
      match t.schema.attribute? name with
      | none => .error (.noSuchAttribute name)
      | some a =>
        if a.kind.isNumeric then
          .ok (reduceCells (t.rows.map (·.get? name)) start push combine)
        else .error (.schema (.wrongKind name .double a.kind))

namespace Holds

variable {t : Table} {entityType : EntityType} {schema : Schema} {entries : List Entry}
  (ht : t.Holds entityType schema entries)
include ht

/-- The rows have under the name of an attribute what the entries have for it. -/
theorem map_get?_rows {name : String} {a : Attribute} (hname : schema.attribute? name = some a) :
    t.rows.map (·.get? name) = entries.map (·.value a) := by
  refine List.ext_getElem ?_ fun p _ hp => ?_
  · rw [rows, List.length_map, List.length_map, List.length_range, List.length_map, ht.size_eq]
  · rw [List.length_map] at hp
    simp only [rows, List.getElem_map, List.getElem_range]
    rw [ht.get?_row, List.getElem?_eq_getElem hp, Option.bind_some, Entry.get?, hname,
      Option.bind_some]

theorem reducesRows (hspare : t.NoSpare) : t.ReducesRows := by
  intro β name start push combine
  rw [Table.reduce, column?, ht.schema_eq]
  cases hi : schema.position? name with
  | none =>
    rw [Schema.position?_eq_none.1 hi]
    rfl
  | some i =>
    obtain ⟨a, ha, hname⟩ := Schema.position?_eq_some.1 hi
    obtain ⟨c, hc, hheld⟩ := ht.exists_columnAt? ha
    have hmem : c ∈ t.allColumns := List.mem_of_getElem? ((columnAt?_eq t i).symm.trans hc)
    rw [Option.bind_some, hc, hname, ht.map_get?_rows hname]
    dsimp only
    rw [hheld.kind', hheld.reduce_eq (hspare c hmem)]

end Holds

/-! ## Runs -/

theorem Draft.noSpare_nil (entityType : EntityType) (schema : Schema) (settings : Settings) :
    NoSpare { entityType, schema, settings } := by
  have hnew (kind : Kind) : ({ kind } : Column.Draft).NoSpare :=
    (by decide : 0 * Segment.capacity < 0 + Segment.capacity)
  refine List.forall_mem_cons.2 ⟨hnew .long, ?_⟩
  exact List.forall_mem_map.2 fun a _ => hnew a.kind

/-- After any steps a new draft holds some entries and has no segment without a row. -/
theorem Draft.run_noSpare (entityType : EntityType) (schema : Schema) (settings : Settings)
    (steps : List BuildStep) :
    let d := (run step steps { entityType, schema, settings }).2
    ∃ entries, d.Holds entityType schema entries ∧ d.NoSpare := by
  obtain ⟨-, indexed, hdraft⟩ := run_step steps { entityType, schema, settings }
  obtain ⟨entries, hd, hspare⟩ := run_keeps (f := addCall)
    (P := fun d => ∃ entries, d.Holds entityType schema entries ∧ d.NoSpare)
    (fun call d ⟨entries, hd, hspare⟩ => by
      obtain ⟨entries', hd', hstep⟩ := hd.add call.value call.replace
      exact ⟨entries', hd', hspare.addCall hstep.ne_write⟩)
    (BuildStep.calls steps)
    ⟨[], holds_nil entityType schema settings, noSpare_nil entityType schema settings⟩
  dsimp only
  rw [hdraft]
  exact ⟨entries, hd.withIndexed indexed, hspare⟩

/-- After any steps a draft is built to a table, and peeked at as one, that reduces its rows. -/
theorem Draft.run_reducesRows (entityType : EntityType) (schema : Schema) (settings : Settings)
    (steps : List BuildStep) :
    let d := (run step steps { entityType, schema, settings }).2
    ∃ built peeked, d.build = .ok built ∧ d.peek = .ok peeked ∧
      ∀ t ∈ [built, peeked], t.ReducesRows := by
  obtain ⟨entries, hd, hspare⟩ := run_noSpare entityType schema settings steps
  obtain ⟨built, entries', hbuild, hbuilt, -⟩ := hd.build
  obtain ⟨peeked, hpeek, hpeeked, -⟩ := hd.peek
  refine ⟨built, peeked, hbuild, hpeek, ?_⟩
  rw [List.forall_mem_cons, List.forall_mem_singleton]
  exact ⟨hbuilt.reducesRows (hspare.build hbuild), hpeeked.reducesRows (hspare.peek hpeek)⟩

/-- After any steps on a new draft, the table that it is built to and the one that is peeked at
    reduce their rows, chunk by chunk. So after any steps on another draft, whatever they are, the
    same rows under a name reduce to the same, for all functions `push` and `combine`. -/
theorem run_reduce (entityType entityType' : EntityType) (schema schema' : Schema)
    (settings settings' : Settings) (steps steps' : List BuildStep) :
    let d := (run Draft.step steps { entityType, schema, settings }).2
    let d' := (run Draft.step steps'
      { entityType := entityType', schema := schema', settings := settings' }).2
    ∃ built peeked built' peeked', d.build = .ok built ∧ d.peek = .ok peeked ∧
      d'.build = .ok built' ∧ d'.peek = .ok peeked' ∧
      ∀ t ∈ [built, peeked], t.ReducesRows ∧
        ∀ t' ∈ [built', peeked'], ∀ name,
          t.schema.attribute? name = t'.schema.attribute? name →
          t.rows.map (·.get? name) = t'.rows.map (·.get? name) →
          ∀ {β : Type} (start : β) (push : β → Double → β) (combine : β → β → β),
            t.reduce name start push combine = t'.reduce name start push combine := by
  obtain ⟨built, peeked, hbuild, hpeek, hreduce⟩ :=
    Draft.run_reducesRows entityType schema settings steps
  obtain ⟨built', peeked', hbuild', hpeek', hreduce'⟩ :=
    Draft.run_reducesRows entityType' schema' settings' steps'
  refine ⟨built, peeked, built', peeked', hbuild, hpeek, hbuild', hpeek', fun t ht => ?_⟩
  refine ⟨hreduce t ht, fun t' ht' name hname hrows β start push combine => ?_⟩
  rw [hreduce t ht, hreduce' t' ht', hname, hrows]

/-- The same two ratings as they are peeked at, in halves with the one draft, and with the other in
    doubles as a rating that was replaced takes a double. -/
theorem run_reduce_ratings :
    let steps : List BuildStep :=
      [.addIndex "rating", .add ⟨ratingRecord 5 (.double ⟨0⟩), false⟩,
        .add ⟨ratingRecord 3 (.double ⟨0x3FF0000000000000⟩), false⟩]
    let steps' : List BuildStep :=
      [.add ⟨ratingRecord 5 (.double ⟨1⟩), false⟩, .add ⟨ratingRecord 5 (.double ⟨0⟩), true⟩,
        .add ⟨ratingRecord 3 (.double ⟨0x3FF0000000000000⟩), false⟩]
    let d := (run Draft.step steps { entityType := ⟨"rating"⟩, schema := ratings }).2
    let d' := (run Draft.step steps' { entityType := ⟨"rating"⟩, schema := ratings }).2
    d.columns.map Column.Draft.encodings = [[.numbers .half]] ∧
      d'.columns.map Column.Draft.encodings = [[.numbers .double]] ∧
      ∃ t t', d.peek = .ok t ∧ d'.peek = .ok t' ∧
        t.schema.attribute? "rating" = t'.schema.attribute? "rating" ∧
        t.rows.map (·.get? "rating") = t'.rows.map (·.get? "rating") ∧
        ∀ {β : Type} (start : β) (push : β → Double → β) (combine : β → β → β),
          t.reduce "rating" start push combine = t'.reduce "rating" start push combine := by
  intro steps steps' d d'
  obtain ⟨built, t, built', t', -, hpeek, -, hpeek', htables⟩ :=
    run_reduce ⟨"rating"⟩ ⟨"rating"⟩ ratings ratings {} {} steps steps'
  have hsame : d.peek.map (fun t => (t.schema.attribute? "rating", t.rows.map (·.get? "rating")))
      = d'.peek.map fun t => (t.schema.attribute? "rating", t.rows.map (·.get? "rating")) := by
    decide +kernel
  rw [hpeek, hpeek'] at hsame
  obtain ⟨hname, hrows⟩ := Prod.mk.inj (Except.ok.inj hsame)
  have ht : t ∈ [built, t] := List.mem_cons_of_mem _ List.mem_cons_self
  have ht' : t' ∈ [built', t'] := List.mem_cons_of_mem _ List.mem_cons_self
  exact ⟨by decide +kernel, by decide +kernel, t, t', hpeek, hpeek', hname, hrows,
    (htables t ht).2 t' ht' "rating" hname hrows⟩

end Table

end ColumnStore
