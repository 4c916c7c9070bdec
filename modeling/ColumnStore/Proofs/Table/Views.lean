import ColumnStore.Proofs.Table.Invariant
import ColumnStore.Proofs.Table.Parts
import ColumnStore.Proofs.Table.Subsets

/-!
# The views of a row agree

A row answers most questions from its columns, where any entity may go by `get?`, and the schema
that it lists may have been kept for another row. None of this shows (`Row.Agrees`):

* The positions in `Row.absent` are those after the id where the column has no value
  (`Row.contains_absent`), so the listed attributes are those under whose names there is one
  (`Row.attributes_schema`).
* The fields of a row, whether it has a value, and its values of a kind are told by `get?`
  (`Row.fields_eq`, `Row.has_eq`, `Row.getOf?_eq`, `Row.long_eq_ok`, `Row.double_eq_ok`).
* As all listed attributes have a value, the copy of a row holds just these (`Entity.gather_eq`).

This is so in all tables that a draft leads to, at any time (`run_views`).
-/

namespace ColumnStore

namespace Entity

variable {schema listed : Schema} {get? : String → Option Value}

/-- The fields are for the attributes that have a value. -/
theorem map_fst_presentFields (schema : Schema) (get? : String → Option Value) :
    (presentFields schema get?).map Prod.fst
      = schema.attributes.filter fun a => (get? a.name).isSome := by
  rw [presentFields, List.map_filterMap, ← List.filterMap_eq_filter]
  refine List.filterMap_congr fun a _ => ?_
  cases h : get? a.name <;> simp [Option.guard, h]

/-- Attributes may be looked up next to whatever there is one of for each of them. -/
theorem presentFields_eq_zip {α : Type} (xs : List α) (hlength : xs.length = schema.size) :
    presentFields schema get?
      = (schema.attributes.zip xs).filterMap fun p => (get? p.1.name).map (p.1, ·) := by
  have hzip : (schema.attributes.zip xs).map Prod.fst = schema.attributes :=
    List.map_fst_zip hlength.ge
  rw [presentFields]
  conv_lhs => rw [← hzip, List.filterMap_map]
  rfl

/-- The first field is the id. -/
theorem presentFields_eq_cons {v : Value} (hid : get? Attribute.idName = some v) :
    presentFields schema get?
      = (.entityId, v) :: schema.named.filterMap fun a => (get? a.name).map (a, ·) :=
  List.filterMap_cons_some (f := fun a : Attribute => (get? a.name).map (a, ·))
    (congrArg (Option.map (Attribute.entityId, ·)) hid)

/-- Attributes without a value make no difference to the fields. -/
theorem presentFields_eq
    (h : listed.attributes = schema.attributes.filter fun a => (get? a.name).isSome) :
    presentFields listed get? = presentFields schema get? := by
  rw [presentFields, presentFields, h, List.filterMap_filter]
  refine List.filterMap_congr fun a _ => ?_
  cases get? a.name <;> rfl

/-- If all attributes of a schema have a value, the first of them being the id, then the record of
    what there is holds just these. -/
theorem gather_eq {entityType : EntityType} {id : Int64}
    (hid : get? Attribute.idName = some (.long id))
    (hpresent : ∀ a ∈ schema.attributes, (get? a.name).isSome) :
    Record.gather entityType id schema get?
      = ⟨entityType, id, schema, (presentFields schema get?).map Prod.snd⟩ := by
  have hschema : schema.filter (fun a => (get? a.name).isSome) = schema :=
    Schema.eq_of_named <| List.filter_eq_self.2 fun a ha => hpresent a (List.mem_cons_of_mem _ ha)
  have hvalues : (schema.named.filterMap fun a => (get? a.name).map (a, ·)).map Prod.snd
      = schema.named.filterMap fun a => get? a.name := by
    rw [List.map_filterMap]
    refine List.filterMap_congr fun a _ => ?_
    cases get? a.name <;> rfl
  rw [Record.gather_eq_filter, hschema, presentFields_eq_cons hid, List.map_cons, hvalues]

end Entity

namespace Row

open Entity

/-- All that a row answers goes together, `listed` being the schema that it lists: it answers from
    its columns as any entity does that has the same under its names. -/
structure Agrees (r : Row) (listed : Schema) : Prop where
  /-- Each attribute of the table has a column, and a row has under its name what is there. -/
  get?_eq : ∀ i a, r.table.schema.attributes[i]? = some a →
    ∃ c, r.table.columnAt? i = some c ∧ Entity.get? r a.name = c.get? r.position
  get?_id : Entity.get? r Attribute.idName = some (.long (Entity.id r))
  /-- The fields are for the attributes of the table under whose names there is a value, in order,
      and have this value. -/
  fields_eq : Entity.fields r = presentFields r.table.schema (Entity.get? r)
  head?_fields : (Entity.fields r).head? = some (.entityId, .long (Entity.id r))
  /-- The attributes of the fields are listed, and no others. -/
  attributes_listed : listed.attributes = (Entity.fields r).map Prod.fst
  position?_listed : ∀ name i,
    listed.position? name = some i ↔ ∃ a, listed.attributes[i]? = some a ∧ a.name = name
  positionOf?_listed : ∀ a i, listed.positionOf? a = some i ↔ listed.attributes[i]? = some a
  fields_eq_listed : Entity.fields r = presentFields listed (Entity.get? r)
  has_eq : ∀ name, Entity.has r name = (Entity.get? r name).isSome
  getOf?_eq : ∀ a, Entity.getOf? r a = (Entity.get? r a.name).filter a.kind.accepts
  long_eq_ok : ∀ name n, Entity.long r name = .ok n ↔ Entity.get? r name = some (.long n)
  double_eq_ok : ∀ name x, Entity.double r name = .ok x ↔ Entity.get? r name = some (.double x)
  toRecord_eq_gather : Entity.toRecord r
    = .gather r.table.entityType (Entity.id r) listed (Entity.get? r)
  /-- The copy has the listed schema and the values of the fields. -/
  toRecord_eq : Entity.toRecord r
    = ⟨r.table.entityType, Entity.id r, listed, (Entity.fields r).map Prod.snd⟩

variable {t : Table} {entityType : EntityType} {schema : Schema} {entries : List Entry} {p : Nat}

section Holds

variable (ht : t.Holds entityType schema entries)
include ht

/-- A row lists the attributes that it has a value for. -/
theorem named_schema :
    (Entity.schema (⟨t, p⟩ : Row)).named
      = schema.named.filter fun a => (get? ⟨t, p⟩ a.name).isSome := by
  have hschema : Entity.schema (⟨t, p⟩ : Row) = t.schema.without (absent ⟨t, p⟩) := rfl
  rw [hschema, ht.schema_eq]
  refine Schema.named_without _ fun i a ha => ?_
  rw [contains_absent_eq ht ha, Option.not_isSome]

/-- The id of a row is under the name of the id. -/
theorem get?_idName (hp : p < t.size) :
    get? ⟨t, p⟩ Attribute.idName = some (.long (id ⟨t, p⟩)) := by
  have hlt : p < entries.length := ht.size_eq ▸ hp
  rw [ht.get?_row, id, ht.idAt_eq, List.getElem?_eq_getElem hlt, Option.bind_some, Entry.get?,
    Schema.attribute?_idName, Option.bind_some, Entry.value_entityId, Option.map_some,
    Option.getD_some]

/-- The fields of a row are read from its columns, and so are the values under its names. -/
theorem fields_eq : fields ⟨t, p⟩ = presentFields t.schema (get? ⟨t, p⟩) := by
  have hlength : t.allColumns.length = t.schema.size := by
    rw [ht.schema_eq, ht.columns.length_eq]
    rfl
  have hget (q : Attribute × Column) (hq : q ∈ t.schema.attributes.zip t.allColumns) :
      (q.2.get? p).map (q.1, ·) = (get? ⟨t, p⟩ q.1.name).map (q.1, ·) := by
    obtain ⟨i, hi⟩ := List.getElem?_of_mem hq
    obtain ⟨ha, hc⟩ := List.getElem?_zip_eq_some.1 hi
    obtain ⟨c, hc', -, hget⟩ := exists_column ht (p := p) (ht.schema_eq ▸ ha)
    rw [Table.columnAt?_eq, hc] at hc'
    rw [hget, Option.some_inj.1 hc']
  rw [presentFields_eq_zip _ hlength]
  exact List.filterMap_congr hget

/-- A row answers what is expected to be of one kind from the column, if this is of the kind. -/
theorem expect_eq_ok {α : Type} {kind : Kind} {read : Column → Nat → Option α}
    (payload : Value → Option α) {value : α → Value}
    (hread : ∀ c a, Entry.HeldBy entries c a → read c p = (c.get? p).bind payload)
    (hpayload : ∀ v x, (v.kind = kind ∧ payload v = some x) ↔ v = value x) (name : String) (x : α) :
    expect ⟨t, p⟩ kind read name = .ok x ↔ get? ⟨t, p⟩ name = some (value x) := by
  cases hcolumn : t.column? name with
  | none => simp [expect, get?, hcolumn]
  | some c =>
    obtain ⟨a, -, hheld⟩ := ht.exists_of_column? hcolumn
    have hget : get? ⟨t, p⟩ name = c.get? p := by rw [get?, hcolumn, Option.bind_some]
    have hkind (v : Value) (hv : c.get? p = some v) : v.kind = c.kind := by
      rw [hheld.get?_eq] at hv
      rw [hheld.kind_of_mem (List.mem_of_getElem? (Option.join_eq_some_iff.1 hv)), hheld.kind']
    rw [expect, hcolumn, hget]
    dsimp only
    rw [hread c a hheld]
    cases hv : c.get? p with
    | none => split <;> simp
    | some v =>
      rw [Option.bind_some, Option.some_inj, ← hpayload, hkind v hv]
      by_cases hc : c.kind = kind
      · rw [if_neg (not_not.2 hc)]
        cases payload v <;> simp [hc]
      · simp [hc]

theorem long_eq_ok (name : String) (n : Int64) :
    Entity.long (⟨t, p⟩ : Row) name = .ok n ↔ get? ⟨t, p⟩ name = some (.long n) := by
  refine expect_eq_ok ht Value.integer? (fun c a hc => ?_) (fun v n => ?_) name n
  · rw [hc.getInteger?_eq, hc.get?_eq]
  · cases v <;> simp [Value.kind, Value.integer?]

theorem double_eq_ok (name : String) (x : Double) :
    Entity.double (⟨t, p⟩ : Row) name = .ok x ↔ get? ⟨t, p⟩ name = some (.double x) := by
  refine expect_eq_ok ht Value.number? (fun c a hc => ?_) (fun v x => ?_) name x
  · rw [hc.getNumber?_eq, hc.get?_eq]
  · cases v <;> simp [Value.kind, Value.number?]

theorem has_eq (name : String) :
    Entity.has (⟨t, p⟩ : Row) name = (get? ⟨t, p⟩ name).isSome := by
  have hhas : Entity.has (⟨t, p⟩ : Row) name = (t.column? name).any (!·.isAbsent p) := rfl
  rw [hhas, get?]
  cases hcolumn : t.column? name with
  | none => rfl
  | some c =>
    obtain ⟨a, -, hheld⟩ := ht.exists_of_column? hcolumn
    rw [Option.any_some, Option.bind_some, hheld.isAbsent_eq, hheld.get?_eq, Option.not_isNone]

/-- A value for an attribute is one under its name, if it is of the attribute's kind. -/
theorem getOf?_eq (a : Attribute) :
    Entity.getOf? (⟨t, p⟩ : Row) a = (get? ⟨t, p⟩ a.name).filter a.kind.accepts := by
  have hgetOf : Entity.getOf? (⟨t, p⟩ : Row) a
      = if a ∈ schema.attributes then get? ⟨t, p⟩ a.name else none := by
    change ((t.schema.positionOf? a).bind t.columnAt?).bind (·.get? p) = _
    rw [t.schema.positionOf?_eq, ht.schema_eq, get?, Table.column?, ht.schema_eq]
    split <;> rfl
  rw [hgetOf]
  cases hv : get? ⟨t, p⟩ a.name with
  | none => exact ite_self none
  | some v =>
    obtain ⟨b, hb, hname, hkind⟩ := ht.exists_of_get?_row hv
    by_cases ha : a ∈ schema.attributes
    · obtain rfl := Schema.eq_of_name_eq hb ha hname
      have haccepts : b.kind.accepts v = true := decide_eq_true hkind
      rw [if_pos ha, Option.filter_some, if_pos haccepts]
    -- An attribute of the name that is not in the schema is of another kind than the one that is.
    · have haccepts : ¬a.kind.accepts v = true := fun haccepts => ha <| by
        have hsame : b.kind = a.kind := hkind.symm.trans (of_decide_eq_true haccepts)
        obtain ⟨name, kind⟩ := a
        obtain ⟨name', kind'⟩ := b
        cases hname
        cases hsame
        exact hb
      rw [if_neg ha, Option.filter_some, if_neg haccepts]

/-- The attributes that a row lists are those of the table that it has a value for. -/
theorem attributes_schema (hp : p < t.size) :
    (Entity.schema (⟨t, p⟩ : Row)).attributes
      = t.schema.attributes.filter fun a => (get? ⟨t, p⟩ a.name).isSome := by
  have hid : (get? ⟨t, p⟩ Attribute.idName).isSome := Option.isSome_of_eq_some (get?_idName ht hp)
  rw [Schema.attributes, named_schema ht, Schema.attributes, ht.schema_eq]
  exact (List.filter_cons_of_pos (p := fun a : Attribute => (get? ⟨t, p⟩ a.name).isSome) hid).symm

/-- Nothing that a row answers contradicts what it has under its names. -/
theorem agrees (hp : p < t.size) : (⟨t, p⟩ : Row).Agrees (Entity.schema (⟨t, p⟩ : Row)) where
  get?_eq i a ha := by
    obtain ⟨c, hc, -, hget⟩ := exists_column ht (p := p) (ht.schema_eq ▸ ha)
    exact ⟨c, hc, hget⟩
  get?_id := get?_idName ht hp
  fields_eq := fields_eq ht
  head?_fields := by
    have hfields : Entity.fields (⟨t, p⟩ : Row) = presentFields t.schema (get? ⟨t, p⟩) :=
      fields_eq ht
    rw [hfields, presentFields_eq_cons (get?_idName ht hp)]
    rfl
  attributes_listed := by
    have hfields : Entity.fields (⟨t, p⟩ : Row) = presentFields t.schema (get? ⟨t, p⟩) :=
      fields_eq ht
    rw [hfields, map_fst_presentFields, attributes_schema ht hp]
  position?_listed name i := Schema.position?_eq_some_iff
  positionOf?_listed a i := Schema.positionOf?_eq_some
  fields_eq_listed := (fields_eq ht).trans (presentFields_eq (attributes_schema ht hp)).symm
  has_eq := has_eq ht
  getOf?_eq := getOf?_eq ht
  long_eq_ok := long_eq_ok ht
  double_eq_ok := double_eq_ok ht
  toRecord_eq_gather := rfl
  toRecord_eq := by
    have hcopy : Entity.toRecord (⟨t, p⟩ : Row) = .gather t.entityType (id ⟨t, p⟩)
      (Entity.schema (⟨t, p⟩ : Row)) (get? ⟨t, p⟩) := rfl
    have hfields : Entity.fields (⟨t, p⟩ : Row) = presentFields t.schema (get? ⟨t, p⟩) :=
      fields_eq ht
    rw [hcopy, hfields, ← presentFields_eq (attributes_schema ht hp)]
    refine gather_eq (get?_idName ht hp) fun a ha => ?_
    rw [attributes_schema ht hp] at ha
    exact (List.mem_filter.1 ha).2

end Holds

end Row

namespace Table

/-- After any steps on a new draft, take the table that it is built to or the one that is peeked at.
    Whatever rows have been asked for what they list, and whatever number of schemas may be kept of
    that, the views of each row agree. -/
theorem run_views (entityType : EntityType) (schema : Schema) (settings : Settings)
    (steps : List BuildStep) :
    let d := (run Draft.step steps { entityType, schema, settings }).2
    ∃ built peeked, d.build = .ok built ∧ d.peek = .ok peeked ∧ ∀ t ∈ [built, peeked],
      t.entityType = entityType ∧ t.schema = schema ∧ t.settings = settings ∧
      ∀ (asked : List Nat) (p : Nat), p < t.size →
        let subsets := (run (fun p => Row.listed ⟨t, p⟩) asked {}).2
        (⟨t, p⟩ : Row).Agrees (Row.listed ⟨t, p⟩ subsets).1 := by
  intro d
  obtain ⟨entries, hd, -⟩ := Draft.run_exists_holds entityType schema settings steps
  obtain ⟨built, entries', hbuild, hbuilt, -⟩ := hd.build
  obtain ⟨peeked, hpeek, hpeeked, -⟩ := hd.peek
  have hsettings : d.settings = settings := Draft.run_settings steps _
  refine ⟨built, peeked, hbuild, hpeek, ?_⟩
  have hviews {t : Table} {entries : List Entry} (ht : t.Holds entityType schema entries)
      (hkept : t.settings = d.settings) :
      t.entityType = entityType ∧ t.schema = schema ∧ t.settings = settings ∧
      ∀ (asked : List Nat) (p : Nat), p < t.size → (⟨t, p⟩ : Row).Agrees
        (Row.listed ⟨t, p⟩ (run (fun p => Row.listed ⟨t, p⟩) asked {}).2).1 := by
    refine ⟨ht.entityType_eq, ht.schema_eq, hkept.trans hsettings, fun asked p hp => ?_⟩
    rw [Row.listed_eq]
    exact Row.agrees ht hp
  rw [List.forall_mem_cons, List.forall_mem_singleton]
  exact ⟨hviews hbuilt (Draft.settings_of_build hbuild),
    hviews hpeeked (Draft.settings_of_peek hpeek)⟩

/-- Of two entities the second has no rating. Asked once again it lists its id alone as before, which
    is kept in the meantime. -/
theorem run_views_ratings :
    let steps : List BuildStep :=
      [.add ⟨ratingRecord 5 (.double ⟨0⟩), false⟩, .add ⟨Record.idOnly ⟨"rating"⟩ 7, false⟩]
    let d := (run Draft.step steps
      { entityType := ⟨"rating"⟩, schema := ratings, settings := { subsetLimit := 1 } }).2
    ∃ t, d.peek = .ok t ∧ 1 < t.size ∧
      let listed := (Row.listed ⟨t, 1⟩ (run (fun p => Row.listed ⟨t, p⟩) [1, 0] {}).2).1
      listed.attributes = [.entityId] ∧ (⟨t, 1⟩ : Row).Agrees listed := by
  intro steps d
  obtain ⟨built, t, -, hpeek, htables⟩ := run_views ⟨"rating"⟩ ratings { subsetLimit := 1 } steps
  obtain ⟨-, -, -, hviews⟩ := htables t (List.mem_cons_of_mem _ List.mem_cons_self)
  have hshown : d.peek.map (fun t => (t.size, (Entity.schema (⟨t, 1⟩ : Row)).attributes))
      = .ok (2, [.entityId]) := by decide +kernel
  rw [hpeek] at hshown
  obtain ⟨hsize, hschema⟩ := Prod.mk.inj (Except.ok.inj hshown)
  have hp : 1 < t.size := by rw [hsize]; decide
  have hlisted :
      (Row.listed ⟨t, 1⟩ (run (fun p => Row.listed ⟨t, p⟩) [1, 0] {}).2).1.attributes
        = [.entityId] := by rw [Row.listed_eq, hschema]
  exact ⟨t, hpeek, hp, hlisted, hviews [1, 0] 1 hp⟩

end Table

end ColumnStore
