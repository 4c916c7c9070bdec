import ColumnStore.Proofs.Entity
import ColumnStore.Proofs.Keys
import ColumnStore.Proofs.Run
import ColumnStore.Record.Draft

/-!
# A record in the making is an ordered map

An inventory has kinds and values by name, the names in the order in which they came to it, and an
id beside them. It is all that a draft of a record shows: any calls are answered as the inventory
answers them (`Draft.run_inventory`). A draft searches a list for names and overwrites fields in
their places, while the names of an inventory stay where they are.

* The fields of a draft are those of its inventory, no two of one name (`Draft.Shows`), and each
  call keeps it so (`Draft.Shows.put`, `Draft.Shows.clear`).
* So nothing is wrong with the attributes of a draft but that there may be too many, and the record
  that is built shows the inventory (`Draft.Shows.map_build`).
-/

namespace ColumnStore.Record

/-- What there is to be seen of a record. -/
structure View where
  entityType : EntityType
  id : Int64
  attributes : List Attribute
  get? : String → Option Value

/-- The view of a record. -/
def view (r : Record) : View := ⟨r.entityType, r.id, r.schema.attributes, r.get?⟩

/-- There is a value for each attribute, and it is of the attribute's kind. -/
structure WellKinded (r : Record) : Prop where
  length_values : r.values.length = r.schema.size
  exists_value : ∀ a ∈ r.schema.attributes, ∃ v, r.get? a.name = some v ∧ v.kind = a.kind

/-! ## Inventories -/

/-- Kinds and values by name, and an id. -/
structure Inventory where
  id : Int64
  /-- The names that are held, in the order in which they came. -/
  names : List String := []
  held : String → Option (Kind × Value) := fun _ => none

namespace Inventory

variable (i : Inventory)

/-- The attributes: the id, then one for each name. -/
def attributes : List Attribute :=
  .entityId :: i.names.filterMap fun name => (i.held name).map fun (kind, _) => ⟨name, kind⟩

/-- The value under a name. -/
def get? (name : String) : Option Value :=
  if name = Attribute.idName then some (.long i.id) else (i.held name).map Prod.snd

/-- Holds a value of the kind of the attribute, under its name. A new name goes to the end; the name
    of the id is for longs only. -/
def put (a : Attribute) (v : Value) : Except SchemaError Unit × Inventory :=
  if v.kind ≠ a.kind then (.error (.wrongKind a.name a.kind v.kind), i)
  else if a.name = Attribute.idName then
    match v with
    | .long id => (.ok (), { i with id })
    | v => (.error (.wrongKind a.name .long v.kind), i)
  else
    (.ok (), { i with
      names := if a.name ∈ i.names then i.names else i.names ++ [a.name]
      held := Function.update i.held a.name (some (a.kind, v)) })

/-- Holds nothing under a name any more. -/
def clear (name : String) : Inventory :=
  { i with names := i.names.filter (· ≠ name), held := Function.update i.held name none }

/-- The view of a record with all that is held. With the id there are 64 attributes at most. -/
def build (entityType : EntityType) : Except SchemaError View :=
  if 63 < i.names.length then .error (.tooManyAttributes (i.names.length + 1) 64)
  else .ok ⟨entityType, i.id, i.attributes, i.get?⟩

section Put

variable {i} {a : Attribute} {v : Value}

theorem put_misfit (hv : v.kind ≠ a.kind) :
    i.put a v = (.error (.wrongKind a.name a.kind v.kind), i) := by
  rw [put.eq_def, if_pos hv]

theorem put_otherId (hv : v.kind = a.kind) (ha : a.name = Attribute.idName)
    (hkind : a.kind ≠ .long) :
    i.put a v = (.error (.wrongKind a.name .long v.kind), i) := by
  rw [put.eq_def, if_neg (not_not.2 hv), if_pos ha]
  cases v with
  | long id => exact absurd hv.symm hkind
  | int | double | bool | text => rfl

theorem put_named (hv : v.kind = a.kind) (ha : a.name ≠ Attribute.idName) :
    i.put a v = (.ok (), { i with
      names := if a.name ∈ i.names then i.names else i.names ++ [a.name]
      held := Function.update i.held a.name (some (a.kind, v)) }) := by
  rw [put.eq_def, if_neg (not_not.2 hv), if_neg ha]

end Put

end Inventory

namespace Draft

/-! ## What a draft does with a value -/

section Put

variable {d : Draft} {a : Attribute} {v : Value} {k : Nat}

theorem check_of_kind (hv : v.kind = a.kind) : a.check v = .ok () := if_pos (decide_eq_true hv)

/-- Only the attribute of the id is a long under the name of the id. -/
theorem eq_entityId_of_kind (hv : v.kind = a.kind) (ha : a.name = Attribute.idName)
    (hkind : a.kind = .long) : a = .entityId ∧ ∃ id, v = .long id :=
  ⟨Attribute.ext ha hkind, Value.exists_long_of_kind (hv.trans hkind)⟩

theorem put_misfit (hv : v.kind ≠ a.kind) :
    d.put a v = (.error (.wrongKind a.name a.kind v.kind), d) := by
  have hcheck : a.check v = .error (.wrongKind a.name a.kind v.kind) :=
    if_neg fun haccepts => hv (of_decide_eq_true haccepts)
  rw [put.eq_def, hcheck]

theorem put_otherId (hv : v.kind = a.kind) (ha : a.name = Attribute.idName)
    (hkind : a.kind ≠ .long) :
    d.put a v = (.error (.wrongKind Attribute.idName .long v.kind), d) := by
  have hid : ¬a.isEntityId = true := fun hid => hkind (of_decide_eq_true hid ▸ rfl)
  rw [put.eq_def, check_of_kind hv]
  dsimp only
  rw [if_pos ha, Bool.eq_false_iff.2 hid]
  cases v <;> rfl

theorem put_held (hv : v.kind = a.kind) (ha : a.name ≠ Attribute.idName)
    (hk : d.fields.findIdx? (·.1.name = a.name) = some k) :
    d.put a v = (.ok (), { d with fields := d.fields.set k (a, v) }) := by
  rw [put.eq_def, check_of_kind hv]
  dsimp only
  rw [if_neg ha, hk]

theorem put_new (hv : v.kind = a.kind) (ha : a.name ≠ Attribute.idName)
    (hk : d.fields.findIdx? (·.1.name = a.name) = none) :
    d.put a v = (.ok (), { d with fields := d.fields ++ [(a, v)] }) := by
  rw [put.eq_def, check_of_kind hv]
  dsimp only
  rw [if_neg ha, hk]

/-- A value of another kind than its attribute's is refused, and so is an id that is no long. It
    leaves the draft as it is; any other value is taken. -/
theorem put_cases (d : Draft) (a : Attribute) (v : Value) :
    if v.kind ≠ a.kind ∨ (a.name = Attribute.idName ∧ a.kind ≠ .long) then
      ∃ e, d.put a v = (.error e, d)
    else (d.put a v).1 = .ok () := by
  split
  · rename_i hrefused
    by_cases hv : v.kind = a.kind
    · obtain ⟨ha, hkind⟩ := hrefused.resolve_left (not_not.2 hv)
      exact ⟨_, put_otherId hv ha hkind⟩
    · exact ⟨_, put_misfit hv⟩
  · rename_i htaken
    obtain ⟨hv, hid⟩ := not_or.1 htaken
    replace hv : v.kind = a.kind := not_not.1 hv
    by_cases ha : a.name = Attribute.idName
    · obtain ⟨rfl, id, rfl⟩ := eq_entityId_of_kind hv ha (not_not.1 fun hkind => hid ⟨ha, hkind⟩)
      rfl
    · cases hk : d.fields.findIdx? (·.1.name = a.name) with
      | some k => rw [put_held hv ha hk]
      | none => rw [put_new hv ha hk]

end Put

/-! ## Drafts show inventories -/

/-- A draft has the fields of an inventory, in its order and of the kinds that are held. -/
structure Shows (d : Draft) (entityType : EntityType) (i : Inventory) : Prop where
  entityType_eq : d.entityType = entityType
  id_eq : d.id = i.id
  names_eq : (d.fields.map fun f => f.1.name) = i.names
  nodup : i.names.Nodup
  idName_notMem : Attribute.idName ∉ i.names
  mem_fields : ∀ a v, (a, v) ∈ d.fields ↔ i.held a.name = some (a.kind, v)
  kind_eq : ∀ name kind v, i.held name = some (kind, v) → v.kind = kind

variable {d : Draft} {entityType : EntityType} {i : Inventory} {a : Attribute} {v : Value}
  {name : String}

theorem shows_nil (entityType : EntityType) (id : Int64) :
    Shows { entityType, id } entityType { id } where
  entityType_eq := rfl
  id_eq := rfl
  names_eq := rfl
  nodup := List.nodup_nil
  idName_notMem := List.not_mem_nil
  mem_fields _ _ := ⟨nofun, nofun⟩
  kind_eq _ _ _ := nofun

/-! ## Calls keep what is shown -/

namespace Shows

variable (h : d.Shows entityType i)
include h

theorem mem_names : name ∈ i.names ↔ ∃ f ∈ d.fields, f.1.name = name := by
  rw [← h.names_eq, List.mem_map]

/-- The field of one name is another one now, or is no more, while those of other names stay. -/
theorem update {fields : List (Attribute × Value)} {names : List String}
    {cell : Option (Kind × Value)} (hnames : (fields.map fun f => f.1.name) = names)
    (hnodup : names.Nodup) (hid : Attribute.idName ∉ names)
    (hkind : ∀ kind w, cell = some (kind, w) → w.kind = kind)
    (hmem : ∀ b w, (b, w) ∈ fields ↔
      (b.name = name ∧ cell = some (b.kind, w)) ∨ ((b, w) ∈ d.fields ∧ b.name ≠ name)) :
    Shows { d with fields } entityType
      { i with names, held := Function.update i.held name cell } where
  entityType_eq := h.entityType_eq
  id_eq := h.id_eq
  names_eq := hnames
  nodup := hnodup
  idName_notMem := hid
  mem_fields b w := by
    dsimp only
    rw [hmem, h.mem_fields, Function.update_apply]
    by_cases hb : b.name = name
    · simp only [hb, if_true, true_and, not_true, and_false, or_false, ne_eq]
    · simp only [hb, if_false, false_and, false_or, not_false_eq_true, and_true, ne_eq]
  kind_eq name' kind w := by
    dsimp only
    rw [Function.update_apply]
    split
    · exact hkind kind w
    · exact h.kind_eq name' kind w

/-- A value of the kind of its attribute is held. -/
theorem hold (ha : a.name ≠ Attribute.idName) (hv : v.kind = a.kind)
    {fields : List (Attribute × Value)}
    (hnames : (fields.map fun f => f.1.name)
      = if a.name ∈ i.names then i.names else i.names ++ [a.name])
    (hmem : ∀ f, f ∈ fields ↔ f = (a, v) ∨ f ∈ d.fields ∧ f.1.name ≠ a.name) :
    Shows { d with fields } entityType { i with
      names := if a.name ∈ i.names then i.names else i.names ++ [a.name]
      held := Function.update i.held a.name (some (a.kind, v)) } := by
  refine h.update hnames ?_ ?_ ?_ fun b w => ?_
  · split
    · exact h.nodup
    · rename_i hnew
      exact List.concat_eq_append ▸ h.nodup.concat hnew
  · split
    · exact h.idName_notMem
    · rw [List.mem_append, List.mem_singleton, not_or]
      exact ⟨h.idName_notMem, Ne.symm ha⟩
  · rintro kind w heq
    obtain ⟨rfl, rfl⟩ := Prod.mk.inj (Option.some_inj.1 heq)
    exact hv
  · have hfield : (b, w) = (a, v) ↔ b.name = a.name ∧ some (a.kind, v) = some (b.kind, w) := by
      rw [Prod.mk.injEq, Attribute.ext_iff, Option.some_inj, Prod.mk.injEq, and_assoc,
        eq_comm (a := a.kind), eq_comm (a := v)]
    rw [hmem, hfield]

/-- A draft and its inventory take a value, or they refuse it with the same error. -/
theorem put (a : Attribute) (v : Value) :
    (d.put a v).1 = (i.put a v).1 ∧ (d.put a v).2.Shows entityType (i.put a v).2 := by
  by_cases hv : v.kind = a.kind
  · by_cases ha : a.name = Attribute.idName
    · by_cases hkind : a.kind = .long
      · obtain ⟨rfl, id, rfl⟩ := eq_entityId_of_kind hv ha hkind
        exact ⟨rfl, { h with id_eq := rfl }⟩
      · rw [put_otherId hv ha hkind, Inventory.put_otherId hv ha hkind, ha]
        exact ⟨rfl, h⟩
    · have hnodup : (d.fields.map fun f => f.1.name).Nodup := h.names_eq ▸ h.nodup
      rw [Inventory.put_named hv ha]
      cases hk : d.fields.findIdx? (·.1.name = a.name) with
      | some k =>
        obtain ⟨hlt, hname, -⟩ := List.findIdx?_eq_some_iff_getElem.1 hk
        replace hname : d.fields[k].1.name = a.name := of_decide_eq_true hname
        have hold : d.fields[k]? = some d.fields[k] := List.getElem?_eq_getElem hlt
        have hheld : a.name ∈ i.names := h.mem_names.2 ⟨_, List.getElem_mem hlt, hname⟩
        -- The name stays where it is, as the field of another kind or value has it, too.
        rw [put_held hv ha hk]
        refine ⟨rfl, h.hold ha hv ?_ fun f => ?_⟩
        · rw [map_set_key hold hname.symm, if_pos hheld, h.names_eq]
        · rw [mem_set_key hnodup hold, hname]
      | none =>
        have hne (f : Attribute × Value) (hf : f ∈ d.fields) : f.1.name ≠ a.name :=
          of_decide_eq_false (List.findIdx?_eq_none_iff.1 hk f hf)
        have hnew : a.name ∉ i.names := fun hmem => by
          obtain ⟨f, hf, hname⟩ := h.mem_names.1 hmem
          exact hne f hf hname
        rw [put_new hv ha hk]
        refine ⟨rfl, h.hold ha hv ?_ fun f => ?_⟩
        · rw [List.map_append, h.names_eq, if_neg hnew]
          rfl
        · rw [List.mem_append, List.mem_singleton, or_comm]
          exact or_congr_right ⟨fun hf => ⟨hf, hne f hf⟩, And.left⟩
  · rw [put_misfit hv, Inventory.put_misfit hv]
    exact ⟨rfl, h⟩

theorem clear (name : String) : (d.clear name).Shows entityType (i.clear name) := by
  refine h.update ?_ (h.nodup.filter _) (fun hid => ?_) nofun fun b w => ?_
  · rw [← h.names_eq, List.filter_map]
    rfl
  · exact h.idName_notMem (List.mem_filter.1 hid).1
  · simp [List.mem_filter]

/-! ## Records that are built -/

/-- A draft is built to a record of its fields unless there are too many. -/
theorem build_cases :
    (63 < i.names.length ∧ d.build = .error (.tooManyAttributes (i.names.length + 1) 64)) ∨
      (i.names.length ≤ 63 ∧ ∃ schema : Schema, schema.named = d.fields.map Prod.fst ∧
        d.build = .ok ⟨d.entityType, d.id, schema, .long d.id :: d.fields.map Prod.snd⟩) := by
  have hnames : (d.fields.map Prod.fst).map Attribute.name = i.names := by
    rw [List.map_map]
    exact h.names_eq
  have hids (a : Attribute) (ha : a ∈ d.fields.map Prod.fst) : a.name ≠ Attribute.idName :=
    fun heq => h.idName_notMem (hnames ▸ heq ▸ List.mem_map_of_mem ha)
  have hlength : (d.fields.map Prod.fst).length = i.names.length := by
    rw [← hnames, List.length_map Attribute.name]
  -- The names are different, and none is that of the id, so only their number can be wrong.
  rw [Draft.build, Schema.create_of_nodup hids (hnames ▸ h.nodup)]
  by_cases hlt : (d.fields.map Prod.fst).length < PositionSet.capacity
  · rw [dif_pos hlt]
    exact .inr ⟨Nat.le_of_lt_succ (hlength ▸ hlt), _, rfl, rfl⟩
  · rw [dif_neg hlt, hlength]
    exact .inl ⟨Nat.not_le.1 fun hle => hlt (hlength ▸ Nat.lt_succ_of_le hle), rfl⟩

section Built

variable {schema : Schema} (hschema : schema.named = d.fields.map Prod.fst)
include hschema

omit h in
theorem fields_built :
    Record.fields ⟨d.entityType, d.id, schema, .long d.id :: d.fields.map Prod.snd⟩
      = (.entityId, .long d.id) :: d.fields := by
  rw [Record.fields, Schema.attributes, hschema, List.zip_cons_cons, List.zip_map', List.map_id']

theorem get?_built (name : String) :
    Record.get? ⟨d.entityType, d.id, schema, .long d.id :: d.fields.map Prod.snd⟩ name
      = i.get? name := by
  refine Option.ext fun v => ?_
  rw [Record.get?_eq_some, fields_built hschema, Inventory.get?, ← h.id_eq]
  simp only [List.mem_cons, Prod.mk.injEq]
  split
  · rename_i hname
    constructor
    · rintro ⟨a, ⟨rfl, rfl⟩ | hmem, ha⟩
      · rfl
      · exact absurd (h.mem_names.2 ⟨_, hmem, ha.trans hname⟩) h.idName_notMem
    · intro hv
      exact ⟨.entityId, .inl ⟨rfl, (Option.some_inj.1 hv).symm⟩, hname.symm⟩
  · rename_i hname
    rw [Option.map_eq_some_iff]
    constructor
    · rintro ⟨a, ⟨rfl, rfl⟩ | hmem, rfl⟩
      · exact absurd rfl hname
      · exact ⟨(a.kind, v), (h.mem_fields a v).1 hmem, rfl⟩
    · rintro ⟨⟨kind, w⟩, hheld, rfl⟩
      exact ⟨⟨name, kind⟩, .inr ((h.mem_fields ⟨name, kind⟩ w).2 hheld), rfl⟩

theorem attributes_built : schema.attributes = i.attributes := by
  have hheld (f : Attribute × Value) (hf : f ∈ d.fields) :
      ((i.held f.1.name).map fun (kind, _) => Attribute.mk f.1.name kind) = some f.1 := by
    rw [(h.mem_fields f.1 f.2).1 hf]
    rfl
  rw [Schema.attributes, hschema, Inventory.attributes, ← h.names_eq, List.filterMap_map]
  congr 1
  calc d.fields.map Prod.fst
      = d.fields.filterMap fun f => some f.1 := (congrFun List.filterMap_eq_map d.fields).symm
    _ = _ := (List.filterMap_congr hheld).symm

theorem wellKinded_built :
    WellKinded ⟨d.entityType, d.id, schema, .long d.id :: d.fields.map Prod.snd⟩ where
  length_values := by
    rw [Schema.size, hschema, List.length_cons, List.length_map, List.length_map]
  exists_value a ha := by
    have hfields := fields_built hschema
    rcases Schema.mem_attributes.1 ha with rfl | ha
    · refine ⟨.long d.id, Record.get?_eq_some.2 ⟨.entityId, ?_, rfl⟩, rfl⟩
      rw [hfields]
      exact List.mem_cons_self
    · obtain ⟨f, hf, rfl⟩ := List.mem_map.1 (hschema ▸ ha)
      refine ⟨f.2, Record.get?_eq_some.2 ⟨f.1, ?_, rfl⟩, ?_⟩
      · rw [hfields]
        exact List.mem_cons_of_mem _ hf
      · exact h.kind_eq _ _ _ ((h.mem_fields f.1 f.2).1 hf)

end Built

/-- A draft is built to what its inventory is. -/
theorem map_build : d.build.map view = i.build entityType := by
  rw [Inventory.build]
  rcases h.build_cases with ⟨hlt, hbuild⟩ | ⟨hle, schema, hschema, hbuild⟩
  · rw [hbuild, if_pos hlt]
    rfl
  · rw [hbuild, if_neg (Nat.not_lt.2 hle), ← h.attributes_built hschema,
      ← funext (h.get?_built hschema), ← h.id_eq, ← h.entityType_eq]
    rfl

theorem wellKinded_of_build {r : Record} (hbuild : d.build = .ok r) : r.WellKinded := by
  rcases h.build_cases with ⟨-, herror⟩ | ⟨-, schema, hschema, hok⟩
  · exact absurd (hbuild.symm.trans herror) nofun
  · rw [Except.ok.inj (hbuild.symm.trans hok)]
    exact h.wellKinded_built hschema

end Shows

/-! ## Calls -/

/-- A call on a draft. -/
inductive Call where
  | put (a : Attribute) (v : Value)
  | clear (name : String)
  | build
deriving DecidableEq

/-- Makes a call: what it gives, a record if it builds one, and the draft that it leaves. -/
def Call.apply : Call → Draft → Except SchemaError (Option Record) × Draft
  | put a v, d => let (result, d) := d.put a v; (result.map fun _ => none, d)
  | clear name, d => (.ok none, d.clear name)
  | build, d => (d.build.map some, d)

end Draft

/-- What an inventory answers to a call. -/
def Inventory.answer (entityType : EntityType) :
    Draft.Call → Inventory → Except SchemaError (Option View) × Inventory
  | .put a v, i => let (result, i) := i.put a v; (result.map fun _ => none, i)
  | .clear name, i => (.ok none, i.clear name)
  | .build, i => ((i.build entityType).map some, i)

namespace Draft

variable {d : Draft} {entityType : EntityType} {i : Inventory}

theorem Shows.apply (h : d.Shows entityType i) (call : Call) :
    (call.apply d).1.map (Option.map view) = (i.answer entityType call).1 ∧
      (call.apply d).2.Shows entityType (i.answer entityType call).2 := by
  cases call with
  | put a v =>
    obtain ⟨hresult, hshows⟩ := h.put a v
    rw [Call.apply, Inventory.answer]
    dsimp only
    rw [← hresult]
    refine ⟨?_, hshows⟩
    cases (d.put a v).1 <;> rfl
  | clear name => exact ⟨rfl, h.clear name⟩
  | build =>
    refine ⟨?_, h⟩
    rw [Call.apply, Inventory.answer, ← h.map_build]
    cases d.build <;> rfl

/-- Whatever values are put into a new draft and cleared from it, and whatever records are built on
    the way, all calls are answered as from an inventory, and in the end the draft shows the
    inventory. A value that is refused leaves the draft as it is. In a record that is built each
    attribute has a value of its kind. -/
theorem run_inventory (entityType : EntityType) (id : Int64) (calls : List Call) :
    let (given, d) := run Call.apply calls { entityType, id }
    let (answers, i) := run (Inventory.answer entityType) calls { id }
    given.map (Except.map (Option.map view)) = answers ∧ d.Shows entityType i ∧
      (∀ a v, if v.kind ≠ a.kind ∨ (a.name = Attribute.idName ∧ a.kind ≠ .long) then
          ∃ e, d.put a v = (.error e, d)
        else (d.put a v).1 = .ok ()) ∧
      ∀ r, d.build = .ok r → r.WellKinded := by
  obtain ⟨hgiven, hshows⟩ := run_related (fun d i => Shows d entityType i)
    (Except.map (Option.map view)) (P := fun _ => True) (fun _ _ _ => trivial)
    (fun call d i h _ => h.apply call) calls (shows_nil entityType id) trivial
  exact ⟨hgiven, hshows, put_cases _, fun r hbuild => hshows.wellKinded_of_build hbuild⟩

/-- A count becomes a long in its place, and a name that is cleared comes last when it is set again.
    The rating is refused. -/
theorem run_inventory_counts :
    let calls : List Call :=
      [.put .title (.text "a"), .put .count (.int 1), .put .user (.long 3),
        .put ⟨"count", .long⟩ (.long 2), .clear "name", .put .title (.text "b"),
        .put .rating (.long 5), .put .entityId (.long 9)]
    let d := (run Call.apply calls { entityType := ⟨"item"⟩, id := 4 }).2
    ∃ r, d.build = .ok r ∧ r.WellKinded ∧
      r.fields = [(.entityId, .long 9), (⟨"count", .long⟩, .long 2), (.user, .long 3),
        (.title, .text "b")] := by
  intro calls d
  obtain ⟨-, -, -, hkinds⟩ := run_inventory ⟨"item"⟩ 4 calls
  have hfields : d.build.map Record.fields = .ok [(.entityId, .long 9), (⟨"count", .long⟩, .long 2),
      (.user, .long 3), (.title, .text "b")] := by decide +kernel
  cases hbuild : d.build with
  | error e =>
    rw [hbuild] at hfields
    exact absurd hfields nofun
  | ok r =>
    rw [hbuild] at hfields
    exact ⟨r, rfl, hkinds r hbuild, Except.ok.inj hfields⟩

end Draft

end ColumnStore.Record
