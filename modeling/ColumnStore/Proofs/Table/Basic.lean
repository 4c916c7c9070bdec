import ColumnStore.Proofs.Column.Basic
import ColumnStore.Proofs.Schema
import ColumnStore.Proofs.Search
import ColumnStore.Table.Draft
import ColumnStore.Table.Query
import Mathlib.Data.List.Forall2

/-!
# Tables as lists of entries

An entry is what a row holds, apart from any column. A table holds a list of entries
(`Table.Holds`) when each of its columns holds the values that the entries have for the
attribute of the column, and then

* its rows read as the entries, one by one (`Holds.lists`);
* a row is found by its id, in whatever order the ids come (`Holds.positionOf?_eq_some`).
-/

namespace ColumnStore

/-- What a row holds: its id, and for each further attribute a value or none. -/
structure Entry where
  id : Int64
  values : Attribute → Option Value

namespace Entry

/-- The value for an attribute, where the id is one, too. -/
def value (e : Entry) (a : Attribute) : Option Value :=
  if a = .entityId then some (.long e.id) else e.values a

/-- The value under a name of a schema. -/
def get? (e : Entry) (schema : Schema) (name : String) : Option Value :=
  (schema.attribute? name).bind e.value

@[simp]
theorem value_entityId (e : Entry) : e.value .entityId = some (.long e.id) := if_pos rfl

theorem map_value_entityId (entries : List Entry) :
    entries.map (·.value .entityId) = entries.map fun e => some (.long e.id) :=
  List.map_congr_left fun e _ => e.value_entityId

theorem value_of_name_ne {a : Attribute} (e : Entry) (ha : a.name ≠ Attribute.idName) :
    e.value a = e.values a := if_neg fun h => ha (by rw [h]; rfl)

theorem value_of_mem_named {schema : Schema} {a : Attribute} (e : Entry) (ha : a ∈ schema.named) :
    e.value a = e.values a := e.value_of_name_ne (schema.name_ne_id a ha)

/-- All values of the entry are such. -/
def All (P : Value → Prop) (e : Entry) : Prop := ∀ a, ∀ v ∈ e.values a, P v

/-- Entries in ascending order of their ids have no other order. -/
theorem eq_of_perm {entries entries' : List Entry} (h : entries.Perm entries')
    (hascend : (entries.map id).Pairwise (· < ·)) (hascend' : (entries'.map id).Pairwise (· < ·)) :
    entries = entries' := eq_of_ascending_map hascend hascend' fun _ => h.mem_iff

/-- The column holds the values that entries have for an attribute. -/
abbrev HeldBy (entries : List Entry) (c : Column) (a : Attribute) : Prop :=
  c.Holds a.kind (entries.map (·.value a))

end Entry

namespace Table

/-- The rows of the table are the entries, one by one. -/
def Lists (t : Table) (entries : List Entry) : Prop :=
  List.Forall₂ (fun (r : Row) e => r.id = e.id ∧ ∀ name, r.get? name = e.get? t.schema name)
    t.rows entries

/-- The table holds a list of entries in its columns. -/
structure Holds (t : Table) (entityType : EntityType) (schema : Schema) (entries : List Entry) :
    Prop where
  entityType_eq : t.entityType = entityType
  schema_eq : t.schema = schema
  columns : List.Forall₂ (Entry.HeldBy entries) t.allColumns schema.attributes
  nodup : (entries.map Entry.id).Nodup
  /-- The rows can be told apart by their numbers. -/
  room : entries.length ≤ maxRows
  ascending : t.sorted → (entries.map Entry.id).Pairwise (· < ·)
  index_eq : ∀ i index, t.indexAt? i = some index →
    ∃ c, t.columnAt? i = some c ∧ index = .ofColumn c

variable {t : Table} {entityType : EntityType} {schema : Schema} {entries : List Entry}
  {a : Attribute} {id : Int64} {i p : Nat}

theorem columnAt?_eq (t : Table) (i : Nat) : t.columnAt? i = t.allColumns[i]? := by
  cases i with
  | zero => rfl
  | succ i => rw [columnAt?, allColumns, List.getElem?_cons_succ, Array.getElem?_toList]

namespace Holds

variable (ht : t.Holds entityType schema entries)
include ht

/-- The column at the position of an attribute holds the values for it. -/
theorem exists_columnAt? (ha : schema.attributes[i]? = some a) :
    ∃ c, t.columnAt? i = some c ∧ Entry.HeldBy entries c a := by
  obtain ⟨hi, rfl⟩ := List.getElem?_eq_some_iff.1 ha
  have hlt : i < t.allColumns.length := ht.columns.length_eq ▸ hi
  exact ⟨t.allColumns[i], by rw [columnAt?_eq, List.getElem?_eq_getElem hlt],
    ht.columns.get hlt hi⟩

/-- A column that is found by a name holds the values for the attribute of the name. -/
theorem exists_of_column? {c : Column} {name : String} (h : t.column? name = some c) :
    ∃ a, schema.attribute? name = some a ∧ Entry.HeldBy entries c a := by
  rw [column?, ht.schema_eq] at h
  obtain ⟨i, hi, hc⟩ := Option.bind_eq_some_iff.1 h
  obtain ⟨a, ha, hname⟩ := Schema.position?_eq_some.1 hi
  obtain ⟨c', hc', hheld⟩ := ht.exists_columnAt? ha
  obtain rfl := Option.some_inj.1 (hc.symm.trans hc')
  exact ⟨a, hname, hheld⟩

theorem ids_holds : t.ids.Holds .long (entries.map fun e => some (.long e.id)) := by
  rw [← Entry.map_value_entityId]
  exact (List.forall₂_cons.1 ht.columns).1

theorem size_eq : t.size = entries.length := by
  rw [size, ht.ids_holds.size', List.length_map]

theorem getInteger?_ids (p : Nat) : t.ids.getInteger? p = entries[p]?.map Entry.id := by
  rw [ht.ids_holds.getInteger?_eq, List.getElem?_map]
  cases entries[p]? <;> rfl

theorem idAt_eq (p : Nat) : t.idAt p = (entries[p]?.map Entry.id).getD 0 := by
  rw [idAt, IdSet.idAt, idSet, ht.getInteger?_ids]

/-- A row has under a name what its entry has. -/
theorem get?_row (p : Nat) (name : String) :
    Row.get? ⟨t, p⟩ name = entries[p]?.bind (·.get? schema name) := by
  rw [Row.get?, column?, ht.schema_eq]
  cases hi : schema.position? name with
  | none =>
    have hnone : ∀ e : Entry, e.get? schema name = none := fun e => by
      rw [Entry.get?, Schema.position?_eq_none.1 hi, Option.bind_none]
    cases entries[p]? with
    | none => rfl
    | some e => exact (hnone e).symm
  | some i =>
    obtain ⟨a, ha, hname⟩ := Schema.position?_eq_some.1 hi
    obtain ⟨c, hc, hholds⟩ := ht.exists_columnAt? ha
    rw [Option.bind_some, hc, Option.bind_some, hholds.get?_eq, List.getElem?_map]
    cases entries[p]? with
    | none => rfl
    | some e =>
      rw [Option.map_some, Option.join_some, Option.bind_some, Entry.get?, hname, Option.bind_some]

/-- A row reads like its entry. -/
theorem row_eq {e : Entry} (hp : entries[p]? = some e) :
    Row.id ⟨t, p⟩ = e.id ∧ ∀ name, Row.get? ⟨t, p⟩ name = e.get? schema name := by
  constructor
  · rw [Row.id, ht.idAt_eq, hp, Option.map_some, Option.getD_some]
  · intro name
    rw [ht.get?_row, hp, Option.bind_some]

theorem lists : t.Lists entries := by
  rw [Lists, List.forall₂_iff_get, ht.schema_eq]
  refine ⟨by rw [rows, List.length_map, List.length_range, ht.size_eq], ?_⟩
  intro p hp hp'
  simp only [rows, List.get_eq_getElem, List.getElem_map, List.getElem_range]
  exact ht.row_eq (List.getElem?_eq_getElem hp')

/-- A row has values of the kinds of its attributes only. -/
theorem exists_of_get?_row {v : Value} {name : String} (h : Row.get? ⟨t, p⟩ name = some v) :
    ∃ a ∈ schema.attributes, a.name = name ∧ v.kind = a.kind := by
  obtain ⟨e, he, hv⟩ := Option.bind_eq_some_iff.1 ((ht.get?_row p name).symm.trans h)
  obtain ⟨a, hname, hvalue⟩ := Option.bind_eq_some_iff.1 hv
  obtain ⟨ha, hname⟩ := Schema.attribute?_eq_some.1 hname
  obtain ⟨i, hi⟩ := List.getElem?_of_mem ha
  obtain ⟨c, -, hholds⟩ := ht.exists_columnAt? hi
  exact ⟨a, ha, hname, hholds.kind_of_mem (List.mem_map.2 ⟨e, List.mem_of_getElem? he, hvalue⟩)⟩

/-! ## Rows by id -/

/-- No two rows have one id. -/
theorem idAt_inj {p q : Nat} (hp : p < t.size) (hq : q < t.size) (h : t.idAt p = t.idAt q) :
    p = q := by
  rw [ht.size_eq] at hp hq
  rw [ht.idAt_eq, ht.idAt_eq, List.getElem?_eq_getElem hp, List.getElem?_eq_getElem hq] at h
  exact (ht.nodup.of_map Entry.id).getElem_inj_iff.1
    (List.inj_on_of_nodup_map ht.nodup (List.getElem_mem hp) (List.getElem_mem hq) h)

theorem ascend (hsorted : t.sorted) : Ascend t.size t.idAt := by
  have hidAt : t.idAt = fun p => (entries.map Entry.id)[p]?.getD 0 := by
    funext p
    rw [ht.idAt_eq, List.getElem?_map]
  rw [hidAt, ht.size_eq, ← List.length_map Entry.id]
  exact ascend_getElem? (ht.ascending hsorted)

/-- A row is found by its id. -/
theorem positionOf?_eq_some_iff : t.positionOf? id = some p ↔ p < t.size ∧ t.idAt p = id := by
  by_cases hsorted : t.sorted
  · have : t.positionOf? id = (search t.size id t.idAt).position? := if_pos hsorted
    rw [this, position?_search_eq_some (ht.ascend hsorted)]
  · have : t.positionOf? id = (List.range t.size).find? fun row => t.idAt row = id := if_neg hsorted
    rw [this, List.find?_range_eq_some]
    simp only [decide_eq_true_eq, List.mem_range, Bool.not_eq_true', decide_eq_false_iff_not]
    refine ⟨fun h => ⟨h.2.1, h.1⟩, fun h => ⟨h.2, h.1, ?_⟩⟩
    intro q hq heq
    exact Nat.ne_of_lt hq (ht.idAt_inj (Nat.lt_trans hq h.1) h.1 (heq.trans h.2.symm))

theorem positionOf?_eq_some :
    t.positionOf? id = some p ↔ ∃ e, entries[p]? = some e ∧ e.id = id := by
  rw [ht.positionOf?_eq_some_iff, ht.idAt_eq, ht.size_eq]
  constructor
  · rintro ⟨hp, heq⟩
    rw [List.getElem?_eq_getElem hp] at heq
    exact ⟨_, List.getElem?_eq_getElem hp, heq⟩
  · rintro ⟨e, he, heq⟩
    obtain ⟨hp, -⟩ := List.getElem?_eq_some_iff.1 he
    exact ⟨hp, by rw [he, Option.map_some, Option.getD_some, heq]⟩

theorem contains_iff : t.contains id ↔ ∃ e ∈ entries, e.id = id := by
  rw [contains, Option.isSome_iff_exists]
  simp only [ht.positionOf?_eq_some]
  constructor
  · rintro ⟨p, e, he, heq⟩
    exact ⟨e, List.mem_of_getElem? he, heq⟩
  · rintro ⟨e, he, heq⟩
    obtain ⟨p, hp⟩ := List.getElem?_of_mem he
    exact ⟨p, e, hp, heq⟩

end Holds

end Table

end ColumnStore
