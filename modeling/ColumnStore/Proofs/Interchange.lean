import ColumnStore.Catalog
import ColumnStore.Proofs.Table.Views
import ColumnStore.Table.Draft

/-!
# An entity may go for its copy

An entity that has its id under the name of the id, lists its fields by what it has under its names
and is copied in the same way can be taken for its copy (`Entity.Interchangeable`):

* The copy has the listed attributes that have a value, and under their names what the entity has
  there (`Entity.attributes_gather`, `Entity.get?_gather`).
* The copy lists the same fields (`Entity.fields_gather_eq`), so tables and catalogs that take the
  one have taken the other (`Table.Draft.add_congr`, `Catalog.Draft.add_congr`).
* Nothing is lost when the copy is copied once more, also if this is done by looking up its values
  again (`Record.gather_self`).

Described entities are such, whatever values they have, and so are the rows of all tables that a
draft leads to, though rows have their own ways to list their fields (`interchangeable`).
-/

namespace ColumnStore

namespace Record

variable {r : Record}

/-- The fields of a record with a value for each attribute are those that have a value. -/
theorem presentFields_self (hlength : r.values.length = r.schema.size) :
    Entity.presentFields r.schema r.get? = r.fields := by
  have hget (field : Attribute × Value) (hfield : field ∈ r.fields) :
      (r.get? field.1.name).map (field.1, ·) = some field := by
    rw [get?_eq_some.2 ⟨field.1, hfield, rfl⟩, Option.map_some]
  rw [Entity.presentFields_eq_zip _ hlength]
  exact (List.filterMap_congr hget).trans List.filterMap_some

/-- A record with a value for each attribute, the first of them being its id, is gathered from what
    it has under its names. -/
theorem gather_self (hlength : r.values.length = r.schema.size)
    (hid : r.values.head? = some (.long r.id)) :
    gather r.entityType r.id r.schema r.get? = r := by
  have hget : r.get? Attribute.idName = some (.long r.id) := (lawful hid).get?_id
  have hpresent (a : Attribute) (ha : a ∈ r.schema.attributes) : (r.get? a.name).isSome := by
    have hzip : r.fields.map Prod.fst = r.schema.attributes := List.map_fst_zip hlength.ge
    obtain ⟨field, hfield, rfl⟩ := List.mem_map.1 (hzip ▸ ha)
    exact Option.isSome_of_eq_some (get?_eq_some.2 ⟨field.1, hfield, rfl⟩)
  rw [Entity.gather_eq hget hpresent, presentFields_self hlength, fields,
    List.map_snd_zip hlength.le]

end Record

namespace Entity

/-! ## What is gathered -/

section Gather

variable {entityType : EntityType} {id : Int64} {schema : Schema} {get? : String → Option Value}

theorem length_values_gather :
    (Record.gather entityType id schema get?).values.length
      = (Record.gather entityType id schema get?).schema.size := by
  rw [Record.gather_eq_filter, List.length_cons, List.length_filterMap_eq_countP,
    List.countP_eq_length_filter]
  rfl

variable (hid : get? Attribute.idName = some (.long id))
include hid

/-- A record is gathered of the attributes that have a value. -/
theorem attributes_gather :
    (Record.gather entityType id schema get?).schema.attributes
      = schema.attributes.filter fun a => (get? a.name).isSome := by
  have hpresent : (get? Attribute.entityId.name).isSome := Option.isSome_of_eq_some hid
  rw [Record.gather_eq_filter, Schema.attributes, Schema.attributes,
    List.filter_cons_of_pos (p := fun a : Attribute => (get? a.name).isSome) hpresent]
  rfl

theorem fields_gather_eq :
    (Record.gather entityType id schema get?).fields = presentFields schema get? :=
  (Record.fields_gather entityType id schema get?).trans (presentFields_eq_cons hid).symm

/-- It has under each name of the schema what was there to gather. -/
theorem get?_gather (name : String) :
    (Record.gather entityType id schema get?).get? name
      = if name ∈ schema.names then get? name else none := by
  refine Option.ext fun v => ?_
  rw [Record.get?_eq_some, fields_gather_eq hid, Option.ite_none_right_eq_some, Schema.names,
    List.mem_map]
  simp only [mem_presentFields]
  constructor
  · rintro ⟨a, ⟨ha, hv⟩, rfl⟩
    exact ⟨⟨a, ha, rfl⟩, hv⟩
  · rintro ⟨⟨a, ha, rfl⟩, hv⟩
    exact ⟨a, ⟨ha, hv⟩, rfl⟩

end Gather

/-! ## Interchangeable entities -/

variable {ε : Type} [Entity ε] {e : ε}

/-- An entity tells the same as its copy, and does the same to whatever takes it. -/
structure Interchangeable (e : ε) : Prop where
  entityType_toRecord : (toRecord e).entityType = entityType e
  id_toRecord : (toRecord e).id = id e
  /-- The copy has the listed attributes that have a value, in their order, from the id on. -/
  attributes_toRecord : (toRecord e).schema.attributes
    = (schema e).attributes.filter fun a => (get? e a.name).isSome
  head?_attributes : (toRecord e).schema.attributes.head? = some .entityId
  /-- The copy has one value for each of them. -/
  length_values : (toRecord e).values.length = (toRecord e).schema.size
  get?_eq : ∀ a ∈ (toRecord e).schema.attributes, (toRecord e).get? a.name = get? e a.name
  get?_toRecord : ∀ name, (toRecord e).get? name
    = if name ∈ (schema e).names then get? e name else none
  fields_toRecord : fields (toRecord e) = fields e
  toRecord_toRecord : toRecord (toRecord e) = toRecord e
  /-- The copy can also be copied by its values. -/
  gather_toRecord : .gather (toRecord e).entityType (toRecord e).id (toRecord e).schema
    (toRecord e).get? = toRecord e
  table_add : ∀ (d : Table.Draft) (replace : Bool), d.add (toRecord e) replace = d.add e replace
  catalog_add : ∀ (d : Catalog.Draft) (replace : Bool), d.add (toRecord e) replace = d.add e replace

end Entity

/-- What a table takes of an entity is its id and its fields. -/
theorem Table.Draft.add_congr {ε ε' : Type} [Entity ε] [Entity ε'] {e : ε} {e' : ε'}
    (hid : Entity.id e = Entity.id e') (hfields : Entity.fields e = Entity.fields e') (d : Draft)
    (replace : Bool) : d.add e replace = d.add e' replace := by
  rw [add, add, hid, hfields]

/-- What a catalog takes of an entity is its copy. -/
theorem Catalog.Draft.add_congr {ε ε' : Type} [Entity ε] [Entity ε'] {e : ε} {e' : ε'}
    (hid : Entity.id e = Entity.id e') (hcopy : Entity.toRecord e = Entity.toRecord e') (d : Draft)
    (replace : Bool) : d.add e replace = d.add e' replace := by
  rw [add, add, hid, hcopy]

namespace Entity

variable {ε : Type} [Entity ε] {e : ε}

/-- It is enough that an entity lists its fields, and is copied, by what it has under its names. -/
theorem interchangeable_of_gather (hid : get? e Attribute.idName = some (.long (id e)))
    (hfields : fields e = presentFields (schema e) (get? e))
    (hcopy : toRecord e = .gather (entityType e) (id e) (schema e) (get? e)) :
    Interchangeable e := by
  have hattributes : (toRecord e).schema.attributes
      = (schema e).attributes.filter fun a => (get? e a.name).isSome :=
    hcopy ▸ attributes_gather hid
  have hget (name : String) : (toRecord e).get? name
      = if name ∈ (schema e).names then get? e name else none := hcopy ▸ get?_gather hid name
  have hlength : (toRecord e).values.length = (toRecord e).schema.size :=
    hcopy ▸ length_values_gather
  have hsame : (toRecord e).id = id e := hcopy ▸ rfl
  have hfields' : fields (toRecord e) = fields e := by
    rw [hfields, ← fields_gather_eq hid, ← hcopy]
    rfl
  refine ⟨hcopy ▸ rfl, hsame, hattributes, rfl, hlength, fun a ha => ?_, hget, hfields', rfl, ?_,
    Table.Draft.add_congr hsame hfields', Catalog.Draft.add_congr hsame rfl⟩
  · rw [hattributes] at ha
    have hname : a.name ∈ (schema e).names := List.mem_map_of_mem (List.mem_of_mem_filter ha)
    rw [hget, if_pos hname]
  · refine Record.gather_self hlength ?_
    rw [hcopy, Record.gather_eq_filter]
    rfl

end Entity

open Entity

variable {t : Table} {entityType : EntityType} {schema : Schema} {entries : List Entry} {p : Nat}

/-- Rows list their fields by their columns, and yet these are the values under their names. -/
theorem Row.interchangeable_row (ht : t.Holds entityType schema entries) (hp : p < t.size) :
    Interchangeable (⟨t, p⟩ : Row) :=
  interchangeable_of_gather (get?_idName ht hp) (agrees ht hp).fields_eq_listed rfl

/-- Entities of which nothing is known but that they have their id under its name are
    interchangeable with their copies.

    So are the rows of the tables that a new draft is peeked at or built to after any steps. It
    makes no difference if a row is copied by a schema that is kept. -/
theorem interchangeable :
    (∀ e : Described, e.get? Attribute.idName = some (.long e.id) → Interchangeable e) ∧
      ∀ (entityType : EntityType) (schema : Schema) (settings : Table.Settings)
        (steps : List BuildStep),
        let d := (run Table.Draft.step steps { entityType, schema, settings }).2
        ∃ built peeked, d.build = .ok built ∧ d.peek = .ok peeked ∧ ∀ t ∈ [built, peeked],
          ∀ p < t.size, Interchangeable (⟨t, p⟩ : Row) ∧ ∀ asked : List Nat,
            let listed := (Row.listed ⟨t, p⟩ (run (fun p => Row.listed ⟨t, p⟩) asked {}).2).1
            .gather t.entityType (Row.id ⟨t, p⟩) listed (Row.get? ⟨t, p⟩)
              = toRecord (⟨t, p⟩ : Row) := by
  refine ⟨fun e hid => interchangeable_of_gather hid rfl rfl, ?_⟩
  intro entityType schema settings steps d
  obtain ⟨entries, hd, -⟩ := Table.Draft.run_exists_holds entityType schema settings steps
  obtain ⟨built, entries', hbuild, hbuilt, -⟩ := hd.build
  obtain ⟨peeked, hpeek, hpeeked, -⟩ := hd.peek
  refine ⟨built, peeked, hbuild, hpeek, ?_⟩
  have hrows {t : Table} {entries : List Entry} (ht : t.Holds entityType schema entries) (p : Nat)
      (hp : p < t.size) : Interchangeable (⟨t, p⟩ : Row) ∧ ∀ asked : List Nat,
        .gather t.entityType (Row.id ⟨t, p⟩)
          (Row.listed ⟨t, p⟩ (run (fun p => Row.listed ⟨t, p⟩) asked {}).2).1 (Row.get? ⟨t, p⟩)
            = toRecord (⟨t, p⟩ : Row) := by
    refine ⟨Row.interchangeable_row ht hp, fun asked => ?_⟩
    rw [Row.listed_eq]
    rfl
  rw [List.forall_mem_cons, List.forall_mem_singleton]
  exact ⟨hrows hbuilt, hrows hpeeked⟩

/-- An entity with a word for a rating and without a name, and a row without a rating. -/
theorem interchangeable_ratings :
    let e : Described :=
      { entityType := ⟨"rating"⟩
        id := 5
        schema := ⟨[.title, .rating], by decide, by decide, by decide⟩
        get? := fun name =>
          if name = "id" then some (.long 5)
          else if name = "rating" then some (.text "good")
          else none }
    let steps : List BuildStep :=
      [.add ⟨Table.ratingRecord 5 (.double ⟨0⟩), false⟩, .add ⟨Record.idOnly ⟨"rating"⟩ 7, false⟩]
    let d := (run Table.Draft.step steps
      { entityType := ⟨"rating"⟩, schema := Table.ratings }).2
    e.get? Attribute.idName = some (.long e.id) ∧ Interchangeable e ∧
      toRecord e = ⟨⟨"rating"⟩, 5, Table.ratings, [.long 5, .text "good"]⟩ ∧
      ∃ t, d.peek = .ok t ∧ 1 < t.size ∧ Interchangeable (⟨t, 1⟩ : Row) := by
  intro e steps d
  refine ⟨by decide, interchangeable.1 e (by decide), by decide +kernel, ?_⟩
  obtain ⟨built, t, -, hpeek, htables⟩ := interchangeable.2 ⟨"rating"⟩ Table.ratings {} steps
  have hshown : d.peek.map Table.size = .ok 2 := by decide +kernel
  rw [hpeek] at hshown
  have hp : 1 < t.size := by
    rw [Except.ok.inj hshown]
    decide
  exact ⟨t, hpeek, hp, (htables t (List.mem_cons_of_mem _ List.mem_cons_self) 1 hp).1⟩

end ColumnStore
