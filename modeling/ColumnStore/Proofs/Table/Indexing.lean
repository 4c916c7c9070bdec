import ColumnStore.Proofs.Table.Query
import ColumnStore.Proofs.Table.Register

/-!
# Indexes are transparent

While a draft takes entities, indexes are asked for at any time, by name or by attribute
(`BuildStep`). A request does nothing but note a position, so the draft goes on as without it
(`Draft.run_step`). Hence any steps at all lead to a table that answers from its rows, as does each
snapshot on the way, and steps that add the same entities lead to tables with the same answers,
row by row, whatever indexes they ask for and when (`run_answers`).
-/

namespace ColumnStore.Table

variable {d : Draft} {entityType : EntityType} {schema : Schema} {entries : List Entry}

namespace Draft

/-- Takes a step of a draft. A request for an index has no outcome. -/
def step : BuildStep → Draft → Option (Except StoreError AddOutcome) × Draft
  | .add call, d => let (outcome, d) := d.addCall call; (some outcome, d)
  | .addIndex name, d => (none, d.addIndex name)
  | .addIndexOf a, d => (none, d.addIndexOf a)

/-- The draft with other positions that will have an index. -/
def withIndexed (d : Draft) (indexed : PositionSet) : Draft := { d with indexed }

theorem indexAt_withIndexed (d : Draft) (indexed : PositionSet) (i? : Option Nat) :
    ∃ indexed', (d.withIndexed indexed).indexAt i? = d.withIndexed indexed' := by
  cases i? with
  | none => exact ⟨indexed, rfl⟩
  | some i => exact ⟨indexed.insert i, rfl⟩

theorem appendRow_withIndexed (d : Draft) (indexed : PositionSet) (id : Int64)
    (cells : List (Option Value)) :
    (d.withIndexed indexed).appendRow id cells
      = ((d.appendRow id cells).1, (d.appendRow id cells).2.withIndexed indexed) := by
  have hsize : (d.withIndexed indexed).size = d.size := rfl
  rw [appendRow, appendRow, hsize]
  by_cases hfull : maxRows ≤ d.size
  · rw [if_pos hfull, if_pos hfull]
  · rw [if_neg hfull, if_neg hfull]
    rcases hids : d.ids.append (some (.long id)) with ⟨_ | _, ids⟩
    · simp only [withIndexed, hids]
    · rcases hcolumns : writeCells Column.Draft.append d.columns cells with ⟨_ | _, columns⟩
      · simp only [withIndexed, hids, hcolumns]
      · simp only [withIndexed, hids, hcolumns]

/-- Adding an entity has nothing to do with the indexes that were asked for. -/
theorem add_withIndexed {ε : Type} [Entity ε] (d : Draft) (indexed : PositionSet) (e : ε)
    (replace : Bool) :
    (d.withIndexed indexed).add e replace
      = ((d.add e replace).1, (d.add e replace).2.withIndexed indexed) := by
  rw [add, add]
  have hschema : (d.withIndexed indexed).schema = d.schema := rfl
  have hstanding : (d.withIndexed indexed).standing (Entity.id e) = d.standing (Entity.id e) := rfl
  rw [hschema, hstanding]
  cases cellsOf d.schema (Entity.fields e) with
  | error err => rfl
  | ok cells =>
    cases d.standing (Entity.id e) with
    | next => exact appendRow_withIndexed d indexed _ cells
    | late => exact appendRow_withIndexed d.scatter indexed _ cells
    | held row => cases replace <;> rfl
    | known => cases replace <;> rfl

/-- The indexes that were asked for are no part of what a draft holds. -/
theorem Holds.withIndexed (hd : d.Holds entityType schema entries) (indexed : PositionSet) :
    (d.withIndexed indexed).Holds entityType schema entries where
  entityType_eq := hd.entityType_eq
  schema_eq := hd.schema_eq
  columns := hd.columns
  nodup := hd.nodup
  room := hd.room
  arrival := hd.arrival

theorem Refines.withIndexed {r : Register} (h : d.Refines entityType schema r)
    (indexed : PositionSet) : (d.withIndexed indexed).Refines entityType schema r := by
  obtain ⟨entries, hd, hperm, hsorted⟩ := h
  exact ⟨entries, hd.withIndexed indexed, hperm, hsorted⟩

/-- Calls leave a draft that holds some entries, in which there is no value but those that were
    there and those of the entities. -/
theorem Holds.run_all {P : Value → Prop} (calls : List AddCall)
    (hd : d.Holds entityType schema entries) (hall : ∀ e ∈ entries, e.All P)
    (hcalls : ∀ call ∈ calls, ∀ field ∈ call.fields, P field.2) :
    ∃ entries', (run addCall calls d).2.Holds entityType schema entries' ∧
      ∀ e ∈ entries', e.All P := by
  induction calls generalizing d entries with
  | nil => exact ⟨entries, hd, hall⟩
  | cons call rest ih =>
    obtain ⟨entries', hd', hstep⟩ := hd.add call.value call.replace
    exact ih hd' (hstep.all hall (hcalls call List.mem_cons_self)) fun call hcall =>
      hcalls call (List.mem_cons_of_mem _ hcall)

theorem Holds.run (calls : List AddCall) (hd : d.Holds entityType schema entries) :
    ∃ entries', (run addCall calls d).2.Holds entityType schema entries' := by
  obtain ⟨entries', hd', -⟩ := hd.run_all (P := fun _ => True) calls (fun _ _ _ _ _ => trivial)
    fun _ _ _ _ => trivial
  exact ⟨entries', hd'⟩

/-- Steps do to a draft what their calls do, but for the indexes that will be built. -/
theorem run_step (steps : List BuildStep) (d : Draft) :
    (run step steps d).1.filterMap id
        = (run addCall (BuildStep.calls steps) d).1 ∧
      ∃ indexed, (run step steps d).2
        = (run addCall (BuildStep.calls steps) d).2.withIndexed indexed := by
  refine run_filterMap (fun d d' : Draft => ∃ indexed, d = d'.withIndexed indexed) BuildStep.call?
    ?_ ?_ steps ⟨d.indexed, rfl⟩
  · intro step d d' hstep h
    obtain ⟨indexed, rfl⟩ := h
    cases step with
    | add call => exact absurd hstep nofun
    | addIndex name => exact ⟨rfl, indexAt_withIndexed d' indexed _⟩
    | addIndexOf a => exact ⟨rfl, indexAt_withIndexed d' indexed _⟩
  · intro step call d d' hstep h
    obtain ⟨indexed, rfl⟩ := h
    cases step with
    | add call' =>
      obtain rfl := Option.some_inj.1 hstep
      have hcall := d'.add_withIndexed indexed call'.value call'.replace
      rw [step, addCall, hcall]
      exact ⟨rfl, indexed, rfl⟩
    | addIndex name => exact absurd hstep nofun
    | addIndexOf a => exact absurd hstep nofun

end Draft

/-! ## Answers -/

/-- Two tables have the same rows and the same answers about values, row by row. -/
structure SameAnswers (t t' : Table) : Prop where
  size_eq : t.size = t'.size
  id_eq : ∀ p, Row.id ⟨t, p⟩ = Row.id ⟨t', p⟩
  get?_eq : ∀ p name, Row.get? ⟨t, p⟩ name = Row.get? ⟨t', p⟩ name
  find_eq : ∀ name v, (t.find name v).map Row.position = (t'.find name v).map Row.position
  findOf_eq : ∀ a v, (t.findOf a v).map Row.position = (t'.findOf a v).map Row.position
  grouped_eq : ∀ name, ((t.grouped name).map fun (v, rs) => (v, rs.map Row.position))
    = (t'.grouped name).map fun (v, rs) => (v, rs.map Row.position)

/-- Tables that hold the same entries have the same answers. -/
theorem Holds.sameAnswers {t t' : Table} (ht : t.Holds entityType schema entries)
    (ht' : t'.Holds entityType schema entries) : SameAnswers t t' where
  size_eq := ht.size_eq.trans ht'.size_eq.symm
  id_eq p := (ht.idAt_eq p).trans (ht'.idAt_eq p).symm
  get?_eq p name := (ht.get?_row p name).trans (ht'.get?_row p name).symm
  find_eq name v := (ht.position_find name v).trans (ht'.position_find name v).symm
  findOf_eq a v := by
    rw [findOf_eq, findOf_eq, ht.schema_eq, ht'.schema_eq]
    by_cases ha : a ∈ schema.attributes
    · rw [if_pos ha, if_pos ha]
      exact (ht.position_find a.name v).trans (ht'.position_find a.name v).symm
    · rw [if_neg ha, if_neg ha]
  grouped_eq name := by
    have hgroups := (ht.groups name).map Row.position
    have hgroups' := (ht'.groups name).map Row.position
    -- Groups of the same positions are listed in one way only.
    simp only [ht.position_find, ht'.position_find] at hgroups hgroups'
    exact hgroups.eq_of_ascends hgroups' ((ht.ascends_grouped name).map Row.position)
      ((ht'.ascends_grouped name).map Row.position)

/-- After any steps on a new draft, the table that it is built to and the one that is peeked at
    answer from their rows, the latter without any index. Any other steps that add the same
    entities lead to a table with the same answers. -/
theorem run_answers (entityType : EntityType) (schema : Schema) (settings : Settings)
    (steps : List BuildStep) :
    let d := (run Draft.step steps { entityType, schema, settings }).2
    (∃ t, d.build = .ok t ∧ t.schema = schema ∧ t.AnswersFromRows ∧
      ∀ steps', BuildStep.calls steps' = BuildStep.calls steps →
        ∃ t', (run Draft.step steps' { entityType, schema, settings }).2.build = .ok t' ∧
          SameAnswers t t') ∧
    ∃ t, d.peek = .ok t ∧ t.schema = schema ∧ (∀ i, t.indexAt? i = none) ∧ t.AnswersFromRows := by
  obtain ⟨entries, hd⟩ :=
    (Draft.holds_nil entityType schema settings).run (BuildStep.calls steps)
  have hsteps (steps' : List BuildStep) (hcalls : BuildStep.calls steps' = BuildStep.calls steps) :
      (run Draft.step steps' { entityType, schema, settings }).2.Holds entityType schema
        entries := by
    obtain ⟨-, indexed, hdraft⟩ := Draft.run_step steps' { entityType, schema, settings }
    rw [hdraft, hcalls]
    exact hd.withIndexed indexed
  obtain ⟨t, sorted, hbuild, ht, hsorted, hperm⟩ := (hsteps steps rfl).build
  obtain ⟨s, hpeek, hs, -, hnone⟩ := (hsteps steps rfl).peek
  refine ⟨⟨t, hbuild, ht.schema_eq, ht.answersFromRows, ?_⟩,
    s, hpeek, hs.schema_eq, hnone, hs.answersFromRows⟩
  intro steps' hcalls
  obtain ⟨t', sorted', hbuild', ht', hsorted', hperm'⟩ := (hsteps steps' hcalls).build
  refine ⟨t', hbuild', ?_⟩
  rw [Entry.eq_of_perm (hperm'.trans hperm.symm) (ht'.ascending hsorted')
    (ht.ascending hsorted)] at ht'
  exact ht.sameAnswers ht'

end ColumnStore.Table
