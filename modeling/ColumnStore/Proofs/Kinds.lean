import ColumnStore.Proofs.Interchange
import ColumnStore.Proofs.Members
import ColumnStore.Proofs.Record.Draft

/-!
# Records and the kinds that they list

A record lists attributes with kinds, next to their values. In a well-kinded record each listed
attribute has a value of its kind, so the listed attributes are those that the record has a value of
(`Record.wellKinded_iff`). How a record comes about decides on whether it is well-kinded:

* Drafts of records refuse values of other kinds (`Record.Draft.Shows.wellKinded_of_build`), and so
  do tables: copies of rows are well-kinded whatever was added (`Row.wellKinded_toRecord`).
* Other entities are copied as they are. The copy has what the entity has under the names that it
  lists, and it is well-kinded if and only if this is of the kinds that it lists
  (`Record.wellKinded_gather`).
* Catalogs keep such copies, and do not look at them (`records_wellKinded`).
-/

namespace ColumnStore

/-- Whatever is held under the name of an attribute after the id is of the attribute's kind. -/
def Schema.Kinded (schema : Schema) (get? : String → Option Value) : Prop :=
  ∀ a ∈ schema.named, ∀ v, get? a.name = some v → v.kind = a.kind

namespace Record

variable {r : Record} {entityType : EntityType} {id : Int64} {schema : Schema}
  {get? : String → Option Value}

/-- A record is well-kinded if it has a value of each attribute that it lists. -/
theorem wellKinded_iff : r.WellKinded ↔ r.values.length = r.schema.size ∧
    ∀ a ∈ r.schema.attributes, ∃ v, r.get? a.name = some v ∧ Entity.getOf? r a = some v := by
  have hgetOf (a : Attribute) (v : Value) : (r.get? a.name = some v ∧ v.kind = a.kind) ↔
      r.get? a.name = some v ∧ Entity.getOf? r a = some v := by
    have heq : Entity.getOf? r a = (r.get? a.name).filter a.kind.accepts := rfl
    rw [heq, Option.filter_eq_some_iff, Kind.accepts, decide_eq_true_eq]
    exact ⟨fun h => ⟨h.1, h⟩, fun h => h.2⟩
  constructor
  · intro h
    refine ⟨h.length_values, fun a ha => ?_⟩
    simpa only [hgetOf] using h.exists_value a ha
  · rintro ⟨hlength, h⟩
    refine ⟨hlength, fun a ha => ?_⟩
    simpa only [hgetOf] using h a ha

theorem wellKinded_idOnly (entityType : EntityType) (id : Int64) :
    (idOnly entityType id).WellKinded where
  length_values := rfl
  exists_value a ha := by
    obtain rfl := List.mem_singleton.1 ha
    exact ⟨.long id, rfl, rfl⟩

/-- A record with a value for each attribute is well-kinded if its fields are of their kinds. -/
theorem wellKinded_iff_fields (hlength : r.values.length = r.schema.size) :
    r.WellKinded ↔ ∀ a v, (a, v) ∈ r.fields → v.kind = a.kind := by
  constructor
  · intro h a v hmem
    obtain ⟨w, hw, hkind⟩ := h.exists_value a (List.of_mem_zip hmem).1
    rw [get?_eq_some.2 ⟨a, hmem, rfl⟩, Option.some_inj] at hw
    rw [hw, hkind]
  · intro h
    refine ⟨hlength, fun a ha => ?_⟩
    have hzip : r.fields.map Prod.fst = r.schema.attributes := List.map_fst_zip hlength.ge
    obtain ⟨⟨b, v⟩, hmem, rfl⟩ := List.mem_map.1 (hzip ▸ ha)
    exact ⟨v, get?_eq_some.2 ⟨b, hmem, rfl⟩, h b v hmem⟩

/-- A gathered record is well-kinded if and only if what there was to gather was of the kinds in the
    schema. -/
theorem wellKinded_gather :
    (gather entityType id schema get?).WellKinded ↔ schema.Kinded get? := by
  rw [wellKinded_iff_fields Entity.length_values_gather, fields_gather]
  simp only [List.mem_cons, List.mem_filterMap, Option.map_eq_some_iff, Prod.mk.injEq]
  constructor
  · intro h a ha v hv
    exact h a v (.inr ⟨a, ha, v, hv, rfl, rfl⟩)
  · rintro h a v (⟨rfl, rfl⟩ | ⟨a, ha, v, hv, rfl, rfl⟩)
    · -- The id is gathered as a long, whatever was held under its name.
      rfl
    · exact h a ha v hv

end Record

/-- After any calls a new draft shows some inventory. -/
theorem Record.Draft.exists_shows (entityType : EntityType) (id : Int64) (calls : List Call) :
    ∃ i, (run Call.apply calls { entityType, id }).2.Shows entityType i :=
  run_keeps (P := fun d : Draft => ∃ i, d.Shows entityType i)
    (fun call _ ⟨_, h⟩ => ⟨_, (h.apply call).2⟩) calls ⟨_, shows_nil entityType id⟩

/-- The copy of a row is well-kinded. -/
theorem Row.wellKinded_toRecord {t : Table} {entityType : EntityType} {schema : Schema}
    {entries : List Entry} (ht : t.Holds entityType schema entries) (p : Nat) :
    (Entity.toRecord (⟨t, p⟩ : Row)).WellKinded := by
  refine Record.wellKinded_gather.2 fun a ha v hv => ?_
  replace ha : a ∈ (Entity.schema (⟨t, p⟩ : Row)).named := ha
  rw [named_schema ht, List.mem_filter] at ha
  -- No other attribute of the table has the name.
  obtain ⟨b, hb, hname, hkind⟩ := ht.exists_of_get?_row hv
  rw [hkind, Schema.eq_of_name_eq hb (List.mem_cons_of_mem _ ha.1) hname]

/-- Records are well-kinded if they are built after any calls, or are made of an id alone, or are
    copies of rows of the tables that a new draft is peeked at or built to after any steps. A record
    is its own copy.

    The copy of an entity that is copied by what it has under its names is well-kinded if and only
    if this is of the kinds that it lists. The members of a catalog are well-kinded, after any
    steps, if and only if the copies are that were written last.

    In a well-kinded record, and in no other with a value for each attribute, each listed attribute
    has a value of its kind. -/
theorem records_wellKinded :
    (∀ (entityType : EntityType) (id : Int64) (calls : List Record.Draft.Call) (r : Record),
      (run Record.Draft.Call.apply calls { entityType, id }).2.build = .ok r → r.WellKinded) ∧
    (∀ (entityType : EntityType) (id : Int64), (Record.idOnly entityType id).WellKinded) ∧
    (∀ (entityType : EntityType) (schema : Schema) (settings : Table.Settings)
      (steps : List BuildStep),
      let d := (run Table.Draft.step steps { entityType, schema, settings }).2
      ∃ built peeked, d.build = .ok built ∧ d.peek = .ok peeked ∧ ∀ t ∈ [built, peeked],
        ∀ p, (Entity.toRecord (⟨t, p⟩ : Row)).WellKinded) ∧
    (∀ r : Record, Entity.toRecord r = r) ∧
    (∀ e : Described, (Entity.toRecord e).WellKinded ↔ e.schema.Kinded e.get?) ∧
    (∀ (entityType : EntityType) (steps : List BuildStep),
      let (given, d) := run Catalog.Draft.step steps { entityType }
      let last? := Catalog.Draft.lastAccepted? (BuildStep.calls steps) (given.filterMap id)
      (∀ r ∈ d.build.members, r.WellKinded) ↔
        ∀ key call, last? key = some call → (Entity.toRecord call.value).WellKinded) ∧
    ∀ r : Record, r.WellKinded ↔ r.values.length = r.schema.size ∧
      ∀ a ∈ r.schema.attributes, ∃ v, r.get? a.name = some v ∧ Entity.getOf? r a = some v := by
  refine ⟨fun entityType id calls r hbuild => ?_, Record.wellKinded_idOnly, ?_, fun _ => rfl,
    fun e => Record.wellKinded_gather, ?_, fun r => Record.wellKinded_iff⟩
  · obtain ⟨i, hshows⟩ := Record.Draft.exists_shows entityType id calls
    exact hshows.wellKinded_of_build hbuild
  · intro entityType schema settings steps d
    exact Table.Draft.run_forall_tables entityType schema settings steps fun t entries ht =>
      Row.wellKinded_toRecord ht
  · intro entityType steps
    have hmem (r : Record) :
        r ∈ (run Catalog.Draft.step steps { entityType }).2.build.members ↔ _ :=
      Array.mem_toList_iff.symm.trans Catalog.Draft.mem_records_run
    constructor
    · intro h key call hlast
      exact h _ ((hmem _).2 ⟨key, call, hlast, rfl⟩)
    · intro h r hr
      obtain ⟨key, call, hlast, rfl⟩ := (hmem r).1 hr
      exact h key call hlast

/-- A catalog keeps a word for a long next to the attribute, of which it then has no value. -/
theorem Catalog.keeps_word_for_long :
    let count : Attribute := ⟨"x", .long⟩
    let e : Described :=
      { entityType := ⟨"rating"⟩
        id := 1
        schema := ⟨[count], by decide, by decide, by decide⟩
        get? := fun name =>
          if name = "id" then some (.long 1)
          else if name = "x" then some (.text "good")
          else none }
    let c := (run Draft.addCall [⟨e, false⟩] { entityType := ⟨"rating"⟩ }).2.build
    ∃ r, c.lookup? 1 = some r ∧ count ∈ r.schema.attributes ∧
      r.get? count.name = some (.text "good") ∧ Entity.getOf? r count = none ∧ ¬r.WellKinded := by
  intro count e c
  refine ⟨Entity.toRecord e, by decide +kernel, by decide +kernel, by decide +kernel,
    by decide +kernel, fun h => ?_⟩
  have hkind := Record.wellKinded_gather.1 h count (List.mem_singleton_self _) (.text "good")
    (by decide)
  exact absurd hkind (by decide)

end ColumnStore
