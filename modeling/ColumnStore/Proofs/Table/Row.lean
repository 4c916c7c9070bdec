import ColumnStore.Proofs.Entity
import ColumnStore.Proofs.PositionSet
import ColumnStore.Proofs.Table.Basic

/-!
# Rows are lawful entities

A row lists the attributes of its table without those that it has no value for, and these are
a set of positions (`Row.absent`). None of its values is lost on the way, so a row is a lawful
entity (`Row.lawful`): its copy has what its fields have, and may go into another collection.
-/

namespace ColumnStore

namespace Row

variable {r : Row} {name : String} {v : Value} {a : Attribute} {i : Nat}

theorem mem_fields : (a, v) ∈ r.fields ↔
    ∃ (i : Nat) (c : Column), r.table.schema.attributes[i]? = some a ∧
      r.table.columnAt? i = some c ∧ c.get? r.position = some v := by
  rw [fields, List.mem_filterMap]
  simp only [Table.columnAt?_eq]
  constructor
  · rintro ⟨⟨b, c⟩, hmem, heq⟩
    obtain ⟨w, hw, heq⟩ := Option.map_eq_some_iff.1 heq
    obtain ⟨rfl, rfl⟩ := Prod.mk.inj heq
    obtain ⟨i, hi⟩ := List.getElem?_of_mem hmem
    obtain ⟨hb, hc⟩ := List.getElem?_zip_eq_some.1 hi
    exact ⟨i, c, hb, hc, hw⟩
  · rintro ⟨i, c, ha, hc, hv⟩
    exact ⟨(a, c), List.mem_of_getElem? (List.getElem?_zip_eq_some.2 ⟨ha, hc⟩),
      Option.map_eq_some_iff.2 ⟨v, hv, rfl⟩⟩

/-- A row has under a name what its fields have there. -/
theorem get?_eq_some : r.get? name = some v ↔ ∃ a, (a, v) ∈ r.fields ∧ a.name = name := by
  simp only [get?, Table.column?, Option.bind_eq_some_iff, mem_fields]
  constructor
  · rintro ⟨c, ⟨i, hi, hc⟩, hv⟩
    obtain ⟨a, ha, hname⟩ := Schema.position?_eq_some_iff.1 hi
    exact ⟨a, ⟨i, c, ha, hc, hv⟩, hname⟩
  · rintro ⟨a, ⟨i, c, ha, hc, hv⟩, rfl⟩
    exact ⟨c, ⟨i, Schema.position?_eq_some_iff.2 ⟨a, ha, rfl⟩, hc⟩, hv⟩

variable {t : Table} {p : Nat}

/-- A row is absent at the positions after the id where the column is without a value. -/
theorem contains_absent (hsize : t.columns.size < PositionSet.capacity) (i : Nat) :
    (absent ⟨t, p⟩).contains (i + 1) = t.columns[i]?.any (·.isAbsent p) := by
  rw [← Array.getElem?_toList]
  exact PositionSet.contains_foldl_insert_zipIdx (fun c : Column => c.isAbsent p)
    (by rwa [Array.length_toList]) i

section Holds

variable {entityType : EntityType} {schema : Schema} {entries : List Entry}
  (ht : t.Holds entityType schema entries)
include ht

/-- Under the name of an attribute a row has what is in the column at its position. -/
theorem exists_column (ha : schema.attributes[i]? = some a) :
    ∃ c, t.columnAt? i = some c ∧ Entry.HeldBy entries c a ∧ get? ⟨t, p⟩ a.name = c.get? p := by
  obtain ⟨c, hc, hheld⟩ := ht.exists_columnAt? ha
  have hposition : t.schema.position? a.name = some i := by
    rw [ht.schema_eq]
    exact Schema.position?_eq_some_iff.2 ⟨a, ha, rfl⟩
  refine ⟨c, hc, hheld, ?_⟩
  rw [get?, Table.column?, hposition, Option.bind_some, hc, Option.bind_some]

/-- A row is absent at the position of an attribute under whose name it has no value. -/
theorem contains_absent_eq (ha : schema.named[i]? = some a) :
    (absent ⟨t, p⟩).contains (i + 1) = (get? ⟨t, p⟩ a.name).isNone := by
  have hsize : t.columns.size < PositionSet.capacity := by
    have hlength : t.columns.toList.length + 1 = schema.named.length + 1 := ht.columns.length_eq
    rw [← Array.length_toList, Nat.succ.inj hlength]
    exact schema.length_lt
  obtain ⟨c, hc, hheld, hget⟩ := exists_column ht (i := i + 1) (p := p) ha
  have hcolumn : t.columns[i]? = some c := hc
  rw [contains_absent hsize, hcolumn, Option.any_some, hheld.isAbsent_eq, hget, hheld.get?_eq]

/-- Rows of a table are lawful entities. -/
theorem lawful (p : Nat) : Entity.Lawful (⟨t, p⟩ : Row) where
  id_toRecord := rfl
  get?_id := (Record.lawful_gather t.entityType (id ⟨t, p⟩) (t.schema.without (absent ⟨t, p⟩))
    (get? ⟨t, p⟩)).get?_id
  get?_eq_some name v hname := by
    have hcopy : Entity.toRecord (⟨t, p⟩ : Row) = .gather t.entityType (id ⟨t, p⟩)
      (t.schema.without (absent ⟨t, p⟩)) (get? ⟨t, p⟩) := rfl
    have hfields : Entity.fields (⟨t, p⟩ : Row) = fields ⟨t, p⟩ := rfl
    rw [hcopy, Record.get?_gather hname, hfields, ← get?_eq_some]
    refine ⟨fun ⟨a, _, _, hv⟩ => hv, ?_⟩
    intro hv
    obtain ⟨a, hmem, rfl⟩ := get?_eq_some.1 hv
    obtain ⟨i, -, ha, -, -⟩ := mem_fields.1 hmem
    refine ⟨a, Schema.mem_named_without.2 ?_, rfl, hv⟩
    -- The attribute is not the id, so the row may be absent at its position.
    rcases i with _ | i
    · exact absurd (Option.some_inj.1 ha ▸ rfl) hname
    · have hnamed : schema.named[i]? = some a := ht.schema_eq ▸ ha
      refine ⟨i, ha, ?_⟩
      rw [contains_absent_eq ht hnamed, hv, Option.isNone_some]

end Holds

end Row

end ColumnStore
