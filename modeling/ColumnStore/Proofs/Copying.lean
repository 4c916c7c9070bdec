import ColumnStore.Proofs.Catalog.LastWrite
import ColumnStore.Proofs.Table.Conforming
import ColumnStore.Proofs.Table.Invariant
import ColumnStore.Proofs.Table.Reordering
import ColumnStore.Proofs.Table.Row

/-!
# Rows are copied to other collections

The rows of a table are entities themselves and may be added to another collection, each by a call
(`Row.call`). They list what they hold and nothing else, so they bring the entries that the table
holds (`Table.Holds.copied`), and their copies read as they do (`Table.Holds.get?_toRecord`).

Hence a built table is read back from its rows, whatever their order (`Table.run_copied`): a table
of the same schema that is made of them has the same rows in the same order, the same answers and
the same fingerprint, and a catalog that is made of them looks up and finds the copy of a row
wherever the table finds the row.
-/

namespace ColumnStore

/-- The call that adds a row to another collection. -/
def Row.call (r : Row) : AddCall := { value := r, replace := false }

namespace Table

variable {t : Table} {entityType : EntityType} {schema : Schema} {entries : List Entry}
  {a : Attribute} {e : Entry} {p : Nat}

/-! ## What rows bring -/

theorem length_calls {calls : List AddCall} (hcalls : calls.Perm (t.rows.map Row.call)) :
    calls.length = t.size := by
  rw [hcalls.length_eq, List.length_map, rows, List.length_map, List.length_range]

namespace Holds

variable (ht : t.Holds entityType schema entries)
include ht

/-- Where a row has a value, it is of the kind of the attribute. -/
theorem conforms_row (p : Nat) : Entity.Conforms schema (⟨t, p⟩ : Row) := by
  intro a v hmem
  obtain ⟨i, c, ha, hc, hv⟩ := Row.mem_fields.1 hmem
  dsimp only at ha hc hv
  rw [ht.schema_eq] at ha
  obtain ⟨c', hc', hheld⟩ := ht.exists_columnAt? ha
  obtain rfl := Option.some_inj.1 (hc.symm.trans hc')
  rw [hheld.get?_eq, Option.join_eq_some_iff] at hv
  exact ⟨List.mem_of_getElem? ha, hheld.kind_of_mem (List.mem_of_getElem? hv)⟩

/-- The fields of a row have for an attribute what its entry has. -/
theorem valuesOf_fields (hp : entries[p]? = some e) (ha : a ∈ schema.named) :
    Register.valuesOf (Row.fields ⟨t, p⟩) a = e.values a := by
  -- There is no column for the attribute but the one that holds its values.
  have hheld {i : Nat} {c : Column} (hi : schema.attributes[i]? = some a)
      (hc : t.columnAt? i = some c) : c.get? p = e.values a := by
    obtain ⟨c', hc', hheld⟩ := ht.exists_columnAt? hi
    obtain rfl := Option.some_inj.1 (hc.symm.trans hc')
    rw [hheld.get?_eq, List.getElem?_map, hp, Option.map_some, Option.join_some,
      e.value_of_mem_named ha]
  ext v
  refine (Register.valuesOf_eq_some (Row.lawful ht p) (schema.name_ne_id a ha)).trans ?_
  refine Row.mem_fields.trans ?_
  rw [ht.schema_eq]
  constructor
  · rintro ⟨i, c, hi, hc, hv⟩
    rwa [← hheld hi hc]
  · intro hv
    obtain ⟨i, hi⟩ := List.getElem?_of_mem (Schema.mem_attributes.2 (.inr ha))
    obtain ⟨c, hc, -⟩ := ht.exists_columnAt? hi
    exact ⟨i, c, hi, hc, (hheld hi hc).trans hv⟩

/-- What is the same for each row and its entry is the same for all. -/
theorem map_entry_rows {β : Type} {f : Entry → β}
    (h : ∀ p e, entries[p]? = some e → f (Row.call ⟨t, p⟩).entry = f e) :
    (t.rows.map fun r => r.call.entry).map f = entries.map f := by
  refine List.ext_getElem ?_ fun p hp hp' => ?_
  · rw [rows, List.length_map, List.length_map, List.length_map, List.length_range,
      List.length_map, ht.size_eq]
  · rw [List.length_map] at hp'
    simp only [rows, List.getElem_map, List.getElem_range]
    exact h p _ (List.getElem?_eq_getElem hp')

theorem id_entry_row (hp : entries[p]? = some e) : (Row.call ⟨t, p⟩).entry.id = e.id :=
  (ht.row_eq hp).1

theorem value_entry_row (ha : a ∈ schema.attributes) (hp : entries[p]? = some e) :
    (Row.call ⟨t, p⟩).entry.value a = e.value a := by
  rcases Schema.mem_attributes.1 ha with rfl | ha
  · rw [Entry.value_entityId, Entry.value_entityId, ht.id_entry_row hp]
  · rw [Entry.value_of_mem_named _ ha, Entry.value_of_mem_named _ ha]
    exact ht.valuesOf_fields hp ha

/-- A table holds what its rows bring. -/
theorem copied : t.Holds entityType schema (t.rows.map fun r => r.call.entry) := by
  have hids := ht.map_entry_rows fun p e hp => ht.id_entry_row hp
  exact
    { entityType_eq := ht.entityType_eq
      schema_eq := ht.schema_eq
      columns := by
        obtain ⟨hlength, hheld⟩ := List.forall₂_iff_get.1 ht.columns
        refine List.forall₂_iff_get.2 ⟨hlength, fun i hi hi' => ?_⟩
        rw [Entry.HeldBy, ht.map_entry_rows fun p e hp =>
          ht.value_entry_row (List.get_mem schema.attributes ⟨i, hi'⟩) hp]
        exact hheld i hi hi'
      nodup := hids ▸ ht.nodup
      room := by
        rw [List.length_map, rows, List.length_map, List.length_range, ht.size_eq]
        exact ht.room
      ascending := hids ▸ ht.ascending
      index_eq := ht.index_eq }

/-- The copy of a row reads as the row. -/
theorem get?_toRecord {r : Row} (hr : r ∈ t.rows) (name : String) :
    (Entity.toRecord r).get? name = r.get? name := by
  obtain ⟨p, hp, rfl⟩ := List.mem_map.1 hr
  have hentry : (t.rows.map fun r => r.call.entry)[p]? = some (Row.call ⟨t, p⟩).entry := by
    rw [List.getElem?_map, rows, List.getElem?_map,
      List.getElem?_range (List.mem_range.1 hp)]
    rfl
  rw [(ht.copied.row_eq hentry).2, Register.get?_toRecord (Row.lawful ht p) (ht.conforms_row p)]
  rfl

/-! ## Collections of rows -/

/-- The ids of rows are those of the calls that add them. -/
theorem nodup_calls {calls : List AddCall} (hcalls : calls.Perm (t.rows.map Row.call)) :
    (calls.map AddCall.id).Nodup := by
  have hids : (t.rows.map Row.call).map AddCall.id = entries.map Entry.id := by
    rw [← ht.map_entry_rows fun p e hp => ht.id_entry_row hp, List.map_map, List.map_map]
    rfl
  rw [(hcalls.map AddCall.id).nodup_iff, hids]
  exact ht.nodup

/-- A new table takes all rows in any order, and is built to hold what they bring. -/
theorem table_of_rows (hsorted : t.sorted) (hroom : t.size ≤ maxRows) (settings : Settings)
    {copying : List BuildStep} (hcalls : (BuildStep.calls copying).Perm (t.rows.map Row.call)) :
    let (given, d) := run Draft.step copying { entityType, schema, settings }
    given.filterMap id = .replicate t.size (.ok .added) ∧
      ∃ t', d.build = .ok t' ∧ t'.Holds entityType schema (t.rows.map fun r => r.call.entry) := by
  have hmisfit : ∀ call ∈ BuildStep.calls copying, Register.misfit? schema call.fields = none := by
    intro call hcall
    obtain ⟨r, hr, rfl⟩ := List.mem_map.1 (hcalls.mem_iff.1 hcall)
    obtain ⟨p, -, rfl⟩ := List.mem_map.1 hr
    exact Register.misfit?_eq_none (ht.conforms_row p)
  have hlength := length_calls hcalls
  obtain ⟨hadded, hholds⟩ := Draft.run_distinct entityType schema settings copying hmisfit
    (ht.nodup_calls hcalls)
  obtain ⟨hgiven, -⟩ := Draft.run_step copying { entityType, schema, settings }
  rw [hlength] at hadded hholds
  obtain ⟨t', entries', hbuild, ht', hsorted', hperm⟩ := (hholds hroom).build
  dsimp only
  refine ⟨List.eq_replicate_iff.2 ⟨by rw [hgiven, length_run, hlength], hadded.2 hroom⟩, t', hbuild,
    ?_⟩
  have hentries : entries'.Perm (t.rows.map fun r => r.call.entry) := by
    have := hperm.trans (hcalls.map AddCall.entry)
    rwa [List.map_map] at this
  rwa [← Entry.eq_of_perm hentries (ht'.ascending hsorted') (ht.copied.ascending hsorted)]

/-- A new catalog takes all rows in any order, and keeps their copies in the order of the rows. -/
theorem catalog_of_rows (hsorted : t.sorted) {copying : List BuildStep}
    (hcalls : (BuildStep.calls copying).Perm (t.rows.map Row.call)) :
    let (given, d) := run Catalog.Draft.step copying { entityType }
    given.filterMap id = .replicate t.size .added ∧ d.Filed ∧
      d.records = t.rows.map Entity.toRecord := by
  obtain ⟨hgiven, hmembers⟩ := Catalog.Draft.run_step copying { entityType }
  have hnodup := ht.nodup_calls hcalls
  have hmem {call : AddCall} : call ∈ BuildStep.calls copying ↔ ∃ r ∈ t.rows, r.call = call :=
    hcalls.mem_iff.trans List.mem_map
  have hfiled : (run Catalog.Draft.step copying { entityType }).2.Filed := by
    rw [Catalog.Draft.Filed, hmembers]
    refine Catalog.Draft.filed_run fun call hcall => ?_
    obtain ⟨r, -, rfl⟩ := hmem.1 hcall
    rfl
  dsimp only
  refine ⟨?_, hfiled, ?_⟩
  · rw [hgiven, Catalog.Draft.run_added hnodup, length_calls hcalls]
  -- Both lists ascend, so that it is enough for them to have the same members.
  · refine eq_of_ascending_map hfiled.build.ascending ?_ fun m => ?_
    · rw [List.map_map]
      exact (ht.sound hsorted).ids_eq ▸ (ht.sound hsorted).ascending
    · rw [hfiled.mem_records, hmembers, List.mem_map]
      constructor
      · intro hm
        have hid := Catalog.Draft.mem_run.1 (Std.TreeMap.mem_iff_isSome_getElem?.2
          (Option.isSome_iff_exists.2 ⟨_, hm⟩))
        obtain ⟨call, hcall, hid⟩ := List.mem_map.1 hid
        rw [← hid, Catalog.Draft.getElem?_run_of_mem hnodup hcall] at hm
        obtain ⟨r, hr, rfl⟩ := hmem.1 hcall
        exact ⟨r, hr, Option.some_inj.1 hm⟩
      · rintro ⟨r, hr, rfl⟩
        exact Catalog.Draft.getElem?_run_of_mem hnodup (hmem.2 ⟨r, hr, rfl⟩)

/-- A catalog of the copies of rows looks up and finds the copies of what the table does. -/
theorem answers_of_rows (hsorted : t.sorted) {d : Catalog.Draft} (hfiled : d.Filed)
    (hrecords : d.records = t.rows.map Entity.toRecord) :
    (∀ id, d.build.lookup? id = (t.lookup? id).map Entity.toRecord) ∧
      ∀ name v, d.build.find name v = (t.find name v).map Entity.toRecord := by
  constructor
  · intro id
    have hlookup (r : Row) : t.lookup? id = some r ↔ r ∈ t.rows ∧ r.id = id :=
      (ht.sound hsorted).lookup?_eq_some id r
    ext m
    rw [hfiled.build.lookup?_eq_some, hrecords, List.mem_map, Option.map_eq_some_iff]
    simp only [hlookup]
    constructor
    · rintro ⟨⟨r, hr, rfl⟩, hid⟩
      exact ⟨r, ⟨hr, hid⟩, rfl⟩
    · rintro ⟨r, ⟨hr, hid⟩, rfl⟩
      exact ⟨⟨r, hr, rfl⟩, hid⟩
  · intro name v
    rw [hfiled.build.find_eq, hrecords, ht.find_eq, List.filter_map]
    refine congrArg (List.map _) (List.filter_congr fun r hr => ?_)
    rw [Function.comp_apply, ht.get?_toRecord hr]

end Holds

/-- After any steps a new draft is built to a table, the rows of which may be added to other
    collections in any order, whatever indexes these are asked for.

    All rows are added to a new table of the same schema, and it has the same rows in the same
    order, the same answers and the same fingerprint.

    All rows are added to a new catalog, too. It has their copies in the order of the rows, and
    where the table looks up or finds rows, the catalog does so with their copies. -/
theorem run_copied (entityType : EntityType) (schema : Schema) (settings settings' : Settings)
    (steps : List BuildStep) :
    ∃ t, (run Draft.step steps { entityType, schema, settings }).2.build = .ok t ∧
      ∀ copying, (BuildStep.calls copying).Perm (t.rows.map Row.call) →
        (let (given, d) := run Draft.step copying
          { entityType := t.entityType, schema := t.schema, settings := settings' }
        given.filterMap id = .replicate t.size (.ok .added) ∧
          ∃ t', d.build = .ok t' ∧ t'.entityType = t.entityType ∧ t'.schema = t.schema ∧
            SameAnswers t t' ∧ (∀ id, t.positionOf? id = t'.positionOf? id) ∧
            t.fingerprint = t'.fingerprint) ∧
        let (given, d) := run Catalog.Draft.step copying { entityType := t.entityType }
        given.filterMap id = .replicate t.size .added ∧
          d.build.members.toList = t.rows.map Entity.toRecord ∧
          (∀ id, d.build.lookup? id = (t.lookup? id).map Entity.toRecord) ∧
          ∀ name v, d.build.find name v = (t.find name v).map Entity.toRecord ∧
            (d.build.find name v).map Record.id = (t.find name v).map Row.id := by
  obtain ⟨entries, hd, hroom⟩ := Draft.run_exists_holds entityType schema settings steps
  obtain ⟨t, sorted, hbuild, ht, hsorted, hperm⟩ := hd.build
  rw [← hperm.length_eq, ← ht.size_eq] at hroom
  refine ⟨t, hbuild, fun copying hcalls => ?_⟩
  rw [ht.entityType_eq, ht.schema_eq]
  constructor
  · obtain ⟨hadded, t', hbuild', ht'⟩ := ht.table_of_rows hsorted hroom settings' hcalls
    exact ⟨hadded, t', hbuild', ht'.entityType_eq, ht'.schema_eq, ht.copied.sameAnswers ht',
      ht.copied.positionOf?_congr ht', ht.copied.fingerprint_eq.trans ht'.fingerprint_eq.symm⟩
  · obtain ⟨hadded, hfiled, hrecords⟩ := ht.catalog_of_rows hsorted hcalls
    obtain ⟨hlookup, hfind⟩ := ht.answers_of_rows hsorted hfiled hrecords
    refine ⟨hadded, hfiled.build.members_eq.trans hrecords, hlookup, fun name v =>
      ⟨hfind name v, ?_⟩⟩
    rw [hfind, List.map_map]
    rfl

/-- Two ratings, copied to a table in descending order of their ids. -/
theorem run_copied_ratings :
    let steps : List BuildStep :=
      [.add ⟨ratingRecord 2 (.double ⟨0⟩), false⟩, .add ⟨ratingRecord 1 (.double ⟨1⟩), false⟩]
    ∃ t, (run Draft.step steps { entityType := ⟨"rating"⟩, schema := ratings }).2.build = .ok t ∧
      let copying := t.rows.reverse.map fun r => BuildStep.add r.call
      (BuildStep.calls copying).Perm (t.rows.map Row.call) ∧
        ∃ t', (run Draft.step copying
            { entityType := t.entityType, schema := t.schema }).2.build = .ok t' ∧
          SameAnswers t t' ∧ t.fingerprint = t'.fingerprint := by
  intro steps
  obtain ⟨t, hbuild, hcopied⟩ := run_copied ⟨"rating"⟩ ratings {} {} steps
  have hcalls : (BuildStep.calls (t.rows.reverse.map fun r => .add r.call)).Perm
      (t.rows.map Row.call) := by
    rw [BuildStep.calls, List.filterMap_map]
    exact List.filterMap_eq_map ▸ (List.reverse_perm t.rows).map Row.call
  obtain ⟨⟨-, t', hbuild', -, -, hanswers, -, hfingerprint⟩, -⟩ := hcopied _ hcalls
  exact ⟨t, hbuild, hcalls, t', hbuild', hanswers, hfingerprint⟩

end Table

end ColumnStore
