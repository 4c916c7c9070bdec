import ColumnStore.Entity
import ColumnStore.Proofs.PositionSet
import ColumnStore.Proofs.Schema
import ColumnStore.Record.Draft

/-!
# Entities and their copies

What an entity lists in its fields is what its copy holds (`Entity.Lawful`): the copy has the
same id, under the name of the id, too, and under any other name the value that the fields have
there. A kind of entity may answer in ways of its own, so this is a law for it to keep:

* Described entities keep it, whatever they tell (`Described.lawful`).
* Records that were gathered or built keep it (`Record.lawful`).
* Rows of tables keep it (`Row.lawful`).

Entities of many schemas may go into one table; those of its own schema conform to it
(`Entity.Conforms`).
-/

namespace ColumnStore

/-! ## Records hold their fields -/

namespace Record

variable {r : Record} {name : String} {v : Value}

/-- A record has under a name what its fields have there. -/
theorem get?_eq_some : r.get? name = some v ↔ ∃ a, (a, v) ∈ r.fields ∧ a.name = name := by
  rw [get?, Option.bind_eq_some_iff]
  constructor
  · rintro ⟨i, hi, hv⟩
    obtain ⟨a, ha, hname⟩ := Schema.position?_eq_some_iff.1 hi
    refine ⟨a, List.mem_of_getElem? (i := i) ?_, hname⟩
    exact List.getElem?_zip_eq_some.2 ⟨ha, hv⟩
  · rintro ⟨a, hmem, rfl⟩
    obtain ⟨i, hi⟩ := List.getElem?_of_mem hmem
    obtain ⟨ha, hv⟩ := List.getElem?_zip_eq_some.1 hi
    exact ⟨i, Schema.position?_eq_some_iff.2 ⟨a, ha, rfl⟩, hv⟩

/-- The values that are found are those of the attributes that have one, in their order. -/
theorem toList_values_foldl_take (value? : String → Option Value) (items : List (Attribute × Nat))
    (g : Gathering) :
    (items.foldl (Gathering.take value?) g).values.toList
      = g.values.toList ++ items.filterMap fun item => value? item.1.name := by
  induction items generalizing g with
  | nil => rw [List.foldl_nil, List.filterMap_nil, List.append_nil]
  | cons item rest ih =>
    rw [List.foldl_cons, ih, Gathering.take, List.filterMap_cons]
    cases value? item.1.name with
    | none => rfl
    | some v => simp

theorem missing_foldl_take (value? : String → Option Value) (items : List (Attribute × Nat))
    (g : Gathering) :
    (items.foldl (Gathering.take value?) g).missing
      = items.foldl (fun s (a, i) => if (value? a.name).isNone then s.insert i else s) g.missing :=
  (List.foldl_hom Gathering.missing fun g item => by
    rw [Gathering.take]
    cases h : value? item.1.name <;> simp [h]).symm

/-- The values are found on the way, and the schema is cut at the positions without one. These go
    together: the schema has just the attributes whose values were found. -/
theorem gather_eq_filter (entityType : EntityType) (id : Int64) (schema : Schema)
    (value? : String → Option Value) :
    gather entityType id schema value?
      = ⟨entityType, id, schema.filter fun a => (value? a.name).isSome,
          .long id :: schema.named.filterMap fun a => value? a.name⟩ := by
  have hschema : schema.without ((schema.named.zipIdx 1).foldl (Gathering.take value?)
        { values := #[.long id] }).missing
      = schema.filter fun a => (value? a.name).isSome := by
    -- The attribute at position `i + 1` is missing if there is no value under its name.
    refine Schema.eq_of_named (Schema.named_without _ fun i a ha => ?_)
    rw [missing_foldl_take, PositionSet.contains_foldl_insert_zipIdx
      (fun a : Attribute => (value? a.name).isNone) schema.length_lt, ha, Option.any_some,
      Option.not_isSome]
  have hvalues : ((schema.named.zipIdx 1).filterMap fun item => value? item.1.name)
      = schema.named.filterMap fun a => value? a.name := by
    conv_rhs => rw [← List.zipIdx_map_fst 1 schema.named, List.filterMap_map]
    rfl
  rw [gather, hschema, toList_values_foldl_take, hvalues, List.singleton_append]

/-- The attributes that have a value, next to their values. -/
theorem zip_filter_filterMap (as : List Attribute) (value? : Attribute → Option Value) :
    (as.filter fun a => (value? a).isSome).zip (as.filterMap value?)
      = as.filterMap fun a => (value? a).map (a, ·) := by
  induction as with
  | nil => rfl
  | cons a rest ih =>
    rcases h : value? a with _ | v
    · rw [List.filter_cons_of_neg (by simp [h]), List.filterMap_cons_none h,
        List.filterMap_cons_none (by rw [h, Option.map_none]), ih]
    · rw [List.filter_cons_of_pos (by simp [h]), List.filterMap_cons_some h, List.zip_cons_cons,
        List.filterMap_cons_some (by rw [h, Option.map_some]), ih]

/-- A gathered record has the id and the values that were there to gather. -/
theorem fields_gather (entityType : EntityType) (id : Int64) (schema : Schema)
    (value? : String → Option Value) :
    (gather entityType id schema value?).fields
      = (.entityId, .long id) :: schema.named.filterMap fun a => (value? a.name).map (a, ·) := by
  rw [gather_eq_filter, ← zip_filter_filterMap schema.named fun a => value? a.name]
  rfl

theorem get?_gather {entityType : EntityType} {id : Int64} {schema : Schema}
    {value? : String → Option Value} (hname : name ≠ Attribute.idName) :
    (gather entityType id schema value?).get? name = some v ↔
      ∃ a ∈ schema.named, a.name = name ∧ value? name = some v := by
  simp only [get?_eq_some, fields_gather, List.mem_cons, List.mem_filterMap,
    Option.map_eq_some_iff, Prod.mk.injEq]
  constructor
  · rintro ⟨a, ⟨rfl, -⟩ | ⟨b, hb, w, hw, rfl, rfl⟩, rfl⟩
    · exact absurd rfl hname
    · exact ⟨b, hb, rfl, hw⟩
  · rintro ⟨a, ha, rfl, hv⟩
    exact ⟨a, .inr ⟨a, ha, v, hv, rfl, rfl⟩, rfl⟩

end Record

/-! ## Lawful entities -/

namespace Entity

theorem mem_presentFields {schema : Schema} {get? : String → Option Value} {a : Attribute}
    {v : Value} :
    (a, v) ∈ presentFields schema get? ↔ a ∈ schema.attributes ∧ get? a.name = some v := by
  simp only [presentFields, List.mem_filterMap, Option.map_eq_some_iff, Prod.mk.injEq]
  constructor
  · rintro ⟨a, ha, v, hv, rfl, rfl⟩
    exact ⟨ha, hv⟩
  · rintro ⟨ha, hv⟩
    exact ⟨a, ha, v, hv, rfl, rfl⟩

variable {ε : Type} [Entity ε] {e : ε} {a : Attribute} {v w : Value}

/-- The copy of an entity holds its id and its fields. -/
structure Lawful (e : ε) : Prop where
  id_toRecord : (toRecord e).id = id e
  get?_id : (toRecord e).get? Attribute.idName = some (.long (id e))
  get?_eq_some : ∀ name v, name ≠ Attribute.idName →
    ((toRecord e).get? name = some v ↔ ∃ a, (a, v) ∈ fields e ∧ a.name = name)

/-- An entity conforms to a schema if its fields are for attributes of the schema only, and have
    values of their kinds. -/
def Conforms (schema : Schema) (e : ε) : Prop :=
  ∀ a v, (a, v) ∈ fields e → a ∈ schema.attributes ∧ v.kind = a.kind

/-- No attribute besides the id has two values in the fields of a lawful entity. -/
theorem Lawful.eq_of_mem_fields (h : Lawful e) (ha : a.name ≠ Attribute.idName)
    (hv : (a, v) ∈ fields e) (hw : (a, w) ∈ fields e) : v = w :=
  Option.some_inj.1 (((h.get?_eq_some _ v ha).2 ⟨a, hv, rfl⟩).symm.trans
    ((h.get?_eq_some _ w ha).2 ⟨a, hw, rfl⟩))

end Entity

/-- A record is lawful if its first value is its id. -/
theorem Record.lawful {r : Record} (h : r.values.head? = some (.long r.id)) : Entity.Lawful r where
  id_toRecord := rfl
  get?_id := by
    refine Record.get?_eq_some.2 ⟨.entityId, List.mem_of_getElem? (i := 0) ?_, rfl⟩
    exact List.getElem?_zip_eq_some.2 ⟨rfl, List.head?_eq_getElem? ▸ h⟩
  get?_eq_some _ _ _ := Record.get?_eq_some

theorem Record.lawful_gather (entityType : EntityType) (id : Int64) (schema : Schema)
    (value? : String → Option Value) : Entity.Lawful (gather entityType id schema value?) :=
  lawful (by rw [gather_eq_filter]; rfl)

theorem Record.lawful_of_build {d : Record.Draft} {r : Record} (h : d.build = .ok r) :
    Entity.Lawful r := by
  rw [Record.Draft.build] at h
  rcases hschema : Schema.create (d.fields.map Prod.fst) with err | schema
  · rw [hschema] at h
    exact absurd h nofun
  · rw [hschema] at h
    obtain rfl := Except.ok.inj h
    exact lawful rfl

/-- Nothing binds what a described entity tells, and yet its copy is lawful. -/
theorem Described.lawful (e : Described) : Entity.Lawful e where
  id_toRecord := rfl
  get?_id := (Record.lawful_gather e.entityType e.id e.schema e.get?).get?_id
  get?_eq_some name v hname := by
    have hcopy : Entity.toRecord e = .gather e.entityType e.id e.schema e.get? := rfl
    have hfields : Entity.fields e = Entity.presentFields e.schema e.get? := rfl
    rw [hcopy, Record.get?_gather hname, hfields]
    simp only [Entity.mem_presentFields, Schema.mem_attributes]
    constructor
    · rintro ⟨a, ha, rfl, hv⟩
      exact ⟨a, ⟨.inr ha, hv⟩, rfl⟩
    · rintro ⟨a, ⟨rfl | ha, hv⟩, rfl⟩
      · exact absurd rfl hname
      · exact ⟨a, ha, rfl, hv⟩

end ColumnStore
