import ColumnStore.Proofs.Table.Indexing

/-!
# The parts of a draft go together

A draft keeps its rows in columns that are written to one after the other, and next to them what is
needed to recognize an id that has come before. After any steps all this goes together
(`Draft.WellFormed`):

* There is a column for each attribute, of its kind, and all columns have the same number of rows,
  which is what their segments add up to.
* Each row has an id, and no two rows have the same.
* The ids ascend and the last of them is remembered, or all of them are in a set.

From the first id that comes late on the ids are in a set for good (`Draft.isSorted_of_run`).
Nothing can be found to be out of place when a draft is peeked at or built (`run_wellFormed`).
-/

namespace ColumnStore.Table

namespace Draft

/-- The ids of the rows, in the order of their arrival. -/
def rowIds (d : Draft) : List Int64 := (List.range d.size).map d.idAt

/-- The parts of a draft for a schema go together. -/
structure WellFormed (d : Draft) (schema : Schema) : Prop where
  schema_eq : d.schema = schema
  /-- Columns are of the kinds of the attributes and of the size of the draft, and so are their
      segments. -/
  columns : List.Forall₂ (fun (c : Column.Draft) a =>
    c.kind = a.kind ∧ c.size = d.size ∧ c.peek = .ok c.now) (d.ids :: d.columns) schema.attributes
  /-- Each row has an id in the first column. -/
  get?_ids : ∀ row < d.size, d.ids.get? row = some (.long (d.idAt row))
  nodup : d.rowIds.Nodup
  /-- The ids ascend to the last one, which is remembered, or the set has just the ids. -/
  arrival : d.arrival.Tracks d.rowIds
  size_le : d.size ≤ maxRows

variable {d : Draft} {entityType : EntityType} {schema : Schema} {entries : List Entry}

/-! ## What a draft holds is well-formed -/

namespace Holds

variable (hd : d.Holds entityType schema entries)
include hd

theorem rowIds_eq : d.rowIds = entries.map Entry.id := by
  refine List.ext_getElem ?_ fun p hp hp' => ?_
  · rw [rowIds, List.length_map, List.length_range, List.length_map, hd.size_eq]
  · simp only [rowIds, List.getElem_map, List.getElem_range]
    rw [hd.idAt_eq, List.getElem?_eq_getElem hp', Option.getD_some, List.getElem_map]

theorem wellFormed (hroom : entries.length ≤ maxRows) : d.WellFormed schema where
  schema_eq := hd.schema_eq
  columns := hd.columns.imp fun c a hc =>
    ⟨hc.kind_eq, by rw [hc.size_eq_length, List.length_map, hd.size_eq], hc.peek_eq⟩
  get?_ids row hrow := by
    rw [hd.size_eq] at hrow
    rw [hd.ids_holds.get?_eq, hd.idAt_eq, List.getElem?_map, List.getElem?_map,
      List.getElem?_eq_getElem hrow, Option.map_some, Option.map_some, Option.join_some,
      Option.getD_some]
  nodup := hd.rowIds_eq ▸ hd.nodup
  arrival := hd.rowIds_eq ▸ hd.arrival
  size_le := hd.size_eq ▸ hroom

/-- There is nothing to keep a draft from being peeked at or built. -/
theorem exists_tables : (∃ peeked, d.peek = .ok peeked) ∧ ∃ built, d.build = .ok built := by
  obtain ⟨peeked, hpeek, -⟩ := hd.peek
  obtain ⟨built, -, hbuild, -⟩ := hd.build
  exact ⟨⟨peeked, hpeek⟩, built, hbuild⟩

end Holds

/-- After any steps a new draft holds some entries, not more than there can be rows. -/
theorem run_exists_holds (entityType : EntityType) (schema : Schema) (settings : Settings)
    (steps : List BuildStep) :
    ∃ entries, (run step steps { entityType, schema, settings }).2.Holds entityType schema entries ∧
      entries.length ≤ maxRows := by
  obtain ⟨-, indexed, hdraft⟩ := run_step steps { entityType, schema, settings }
  obtain ⟨entries, hd⟩ := (holds_nil entityType schema settings).run (BuildStep.calls steps)
  exact ⟨entries, hdraft ▸ hd.withIndexed indexed, hd.room⟩

/-- After any steps a new draft is built and peeked at, and what is so of all tables that hold
    entries is so of both tables. -/
theorem run_forall_tables (entityType : EntityType) (schema : Schema) (settings : Settings)
    (steps : List BuildStep) {P : Table → Prop}
    (h : ∀ (t : Table) (entries : List Entry), t.Holds entityType schema entries → P t) :
    let d := (run step steps { entityType, schema, settings }).2
    ∃ built peeked, d.build = .ok built ∧ d.peek = .ok peeked ∧ ∀ t ∈ [built, peeked], P t := by
  obtain ⟨entries, hd, -⟩ := run_exists_holds entityType schema settings steps
  obtain ⟨built, entries', hbuild, hbuilt, -⟩ := hd.build
  obtain ⟨peeked, hpeek, hpeeked, -⟩ := hd.peek
  refine ⟨built, peeked, hbuild, hpeek, ?_⟩
  rw [List.forall_mem_cons, List.forall_mem_singleton]
  exact ⟨h built entries' hbuilt, h peeked entries hpeeked⟩

/-! ## Ids that came late -/

theorem isSorted_appendRow (d : Draft) (id : Int64) (cells : List (Option Value)) :
    (d.appendRow id cells).2.isSorted = d.isSorted := by
  rw [appendRow]
  by_cases hfull : maxRows ≤ d.size
  · rw [if_pos hfull]
  · rw [if_neg hfull]
    rcases d.ids.append (some (.long id)) with ⟨_ | _, ids⟩
    · rfl
    · rcases writeCells Column.Draft.append d.columns cells with ⟨_ | _, columns⟩
      · rfl
      · exact isSorted_of_arrival rfl

/-- No step makes the ids of a draft ascend if they do not. -/
theorem isSorted_of_step (s : BuildStep) (d : Draft) (h : (step s d).2.isSorted = true) :
    d.isSorted = true := by
  cases s with
  | addIndex name =>
    revert h
    rw [step, addIndex]
    cases d.schema.position? name <;> exact id
  | addIndexOf a =>
    revert h
    rw [step, addIndexOf]
    cases d.schema.positionOf? a <;> exact id
  | add call =>
    revert h
    rw [step, addCall, add]
    cases cellsOf d.schema (Entity.fields call.value) with
    | error err => exact id
    | ok cells =>
      cases d.standing (Entity.id call.value) with
      | next => exact (isSorted_appendRow d _ cells).symm.trans
      | late =>
        -- The ids are in a set before the row comes to them.
        intro h
        rw [isSorted_appendRow] at h
        exact (Bool.false_ne_true h).elim
      | held row => cases call.replace <;> exact id
      | known => cases call.replace <;> exact id

/-- Nor does a run. -/
theorem isSorted_of_run (steps : List BuildStep) (h : (run step steps d).2.isSorted = true) :
    d.isSorted = true := of_run (P := fun d : Draft => d.isSorted = true) isSorted_of_step steps h

end Draft

/-- After any steps a new draft is well-formed, can be peeked at and is built. Once its ids do not
    ascend any more, they do not after any further steps. -/
theorem run_wellFormed (entityType : EntityType) (schema : Schema) (settings : Settings)
    (steps : List BuildStep) :
    let d := (run Draft.step steps { entityType, schema, settings }).2
    d.WellFormed schema ∧
      (∃ peeked, d.peek = .ok peeked) ∧ (∃ built, d.build = .ok built) ∧
      ∀ further, d.isSorted = false → (run Draft.step further d).2.isSorted = false := by
  intro d
  obtain ⟨entries, hd, hroom⟩ := Draft.run_exists_holds entityType schema settings steps
  obtain ⟨hpeek, hbuild⟩ := hd.exists_tables
  refine ⟨hd.wellFormed hroom, hpeek, hbuild, ?_⟩
  intro further hscattered
  refine Bool.eq_false_iff.2 fun hsorted => ?_
  exact absurd (hscattered.symm.trans (Draft.isSorted_of_run further hsorted)) nofun

end ColumnStore.Table
