import ColumnStore.Proofs.Catalog
import ColumnStore.Proofs.Roster
import ColumnStore.Proofs.Table.Conforming
import ColumnStore.Proofs.Table.Indexing

/-!
# The backings agree

The same calls lead to the same entities, be they kept as rows of a table, as records of a
catalog, or as the ids of a roster (`backings_agree`):

* A catalog keeps what a register does (`Catalog.Draft.Matches`), as long as the calls add
  conforming entities in an orderly way (`Catalog.Draft.run_matches`), and so does a table.
* A roster keeps the ids that a catalog does (`Roster.Draft.Covers`), whatever the calls add.
-/

namespace ColumnStore

open Table (Register)

/-- A record reads like the entry of a row. -/
def Record.ReadsAs (schema : Schema) (m : Record) (e : Entry) : Prop :=
  m.id = e.id ∧ ∀ name, m.get? name = e.get? schema name

namespace Catalog.Draft

/-- The draft keeps under each id a record that reads like the row of the register. -/
def Matches (d : Draft) (schema : Schema) (r : Register) : Prop :=
  ∀ id : Int64, Option.Rel (fun m values => Record.ReadsAs schema m ⟨id, values⟩)
    d.members[id]? r.rows[id]?

variable {d : Draft} {schema : Schema} {r : Register} {call : AddCall}

theorem matches_nil (entityType : EntityType) (schema : Schema) :
    Matches { entityType } schema {} := by
  intro id
  rw [Std.TreeMap.getElem?_emptyc, Std.TreeMap.getElem?_emptyc]
  exact .none

theorem Matches.mem_iff (h : d.Matches schema r) (id : Int64) : id ∈ d.members ↔ id ∈ r.rows := by
  rw [Std.TreeMap.mem_iff_isSome_getElem?, Std.TreeMap.mem_iff_isSome_getElem?]
  have hid := h id
  generalize d.members[id]? = m?, r.rows[id]? = values? at hid
  rcases hid <;> exact .rfl

theorem Matches.of_members_eq {d' : Draft} (h : d.Matches schema r) (heq : d'.members = d.members) :
    d'.Matches schema r := by
  rw [Matches, heq]
  exact h

theorem Matches.keyed (h : d.Matches schema r) : d.Keyed := by
  intro id m hm
  have hid := h id
  rw [hm] at hid
  generalize r.rows[id]? = values? at hid
  rcases hid with hread | _
  refine ⟨hread.1, ?_⟩
  rw [hread.2, Entry.get?, Schema.attribute?_idName, Option.bind_some, Entry.value_entityId]

/-- An entity is kept as its copy in the one, and as the values of its fields in the other. -/
theorem Matches.insert (h : d.Matches schema r) (hlawful : Entity.Lawful call.value)
    (hconforms : Entity.Conforms schema call.value) (ascending : Bool) :
    Matches { d with members := d.members.insert call.id (Entity.toRecord call.value) } schema
      ⟨r.rows.insert call.id (Register.valuesOf call.fields), ascending⟩ := by
  intro id
  rw [Std.TreeMap.getElem?_insert, Std.TreeMap.getElem?_insert]
  by_cases hid : compare call.id id = .eq
  · rw [if_pos hid, if_pos hid]
    obtain rfl := Std.LawfulEqOrd.eq_of_compare hid
    exact .some ⟨hlawful.id_toRecord, Register.get?_toRecord hlawful hconforms⟩
  · rw [if_neg hid, if_neg hid]
    exact h id

/-- A call does the same to both, unless the register refuses to replace a row. -/
theorem Matches.addCall (h : d.Matches schema r) (hlawful : Entity.Lawful call.value)
    (hconforms : Entity.Conforms schema call.value)
    (horderly : call.replace = true → call.id ∈ r.rows → r.ascending = true) :
    (r.add schema call).1 = .ok (d.addCall call).1 ∧
      (d.addCall call).2.Matches schema (r.add schema call).2 := by
  have hnone := Register.misfit?_eq_none hconforms
  by_cases hid : call.id ∈ r.rows
  · rw [addCall_known ((h.mem_iff call.id).2 hid)]
    rcases hreplace : call.replace with _ | _
    · rw [Register.add_dropped hnone hid hreplace]
      exact ⟨rfl, h⟩
    · rw [Register.add_replaced hnone hid hreplace (horderly hreplace hid)]
      exact ⟨rfl, h.insert hlawful hconforms _⟩
  · rw [addCall_fresh (mt (h.mem_iff call.id).1 hid), Register.add_fresh hnone hid]
    exact ⟨rfl, h.insert hlawful hconforms _⟩

/-- Orderly calls that add conforming entities do the same to a new draft and to the empty
    register. -/
theorem run_matches (entityType : EntityType) {calls : List AddCall}
    (hlawful : ∀ call ∈ calls, Entity.Lawful call.value)
    (hconforms : ∀ call ∈ calls, Entity.Conforms schema call.value) (horderly : Orderly calls) :
    (run (Register.add schema) calls {}).1 = (run addCall calls { entityType }).1.map .ok ∧
      (run addCall calls { entityType }).2.Matches schema
        (run (Register.add schema) calls {}).2 := by
  induction calls using List.reverseRecOn with
  | nil => exact ⟨rfl, matches_nil entityType schema⟩
  | append_singleton rest call ih =>
    rw [List.forall_mem_append, List.forall_mem_singleton] at hlawful hconforms
    rw [orderly_concat] at horderly
    obtain ⟨houtcomes, hmatches⟩ := ih hlawful.1 hconforms.1 horderly.1
    have hnone : ∀ call ∈ rest, Register.misfit? schema call.fields = none :=
      fun call hcall => Register.misfit?_eq_none (hconforms.1 call hcall)
    -- Whether a replacement comes too late is known from the ids, and so is what is kept.
    obtain ⟨houtcome, hmatches⟩ := hmatches.addCall hlawful.2 hconforms.2 fun hreplace hid =>
      (Register.ascending_run hnone).2 (horderly.2 hreplace ((Register.mem_run hnone).1 hid))
    rw [run_concat, run_concat, houtcomes, houtcome, List.map_append, List.map_singleton]
    exact ⟨rfl, hmatches⟩

/-- The records of the draft are the rows of the register, one by one. -/
theorem Matches.forall₂ (h : d.Matches schema r) :
    List.Forall₂ (Record.ReadsAs schema) d.records r.entries := by
  have hids : d.records.map Record.id = r.entries.map Entry.id := by
    refine eq_of_ascending h.keyed.build.ascending r.ascending_entries ?_
    intro id
    rw [h.keyed.filed.map_id_records, r.map_id_entries, Std.TreeMap.mem_keys, Std.TreeMap.mem_keys]
    exact h.mem_iff id
  have hlength : d.records.length = r.entries.length := by
    simpa using congrArg List.length hids
  refine List.forall₂_iff_get.2 ⟨hlength, ?_⟩
  intro i hi hi'
  have hid : d.records[i].id = r.entries[i].id := by
    have := List.getElem_of_eq hids (by rwa [List.length_map])
    rwa [List.getElem_map, List.getElem_map] at this
  have hm := h.keyed.filed.mem_records.1 (List.getElem_mem hi)
  have he := Register.mem_entries.1 (List.getElem_mem hi')
  have hread := h d.records[i].id
  rw [hm, hid, he] at hread
  rcases hread with hread | _
  exact hread

end Catalog.Draft

/-! ## Rosters -/

namespace Roster.Draft

/-- The draft has the ids of the records of a catalog. -/
def Covers (d : Draft) (c : Catalog.Draft) : Prop := ∀ id, id ∈ d.ids ↔ id ∈ c.members

variable {d : Draft} {c : Catalog.Draft}

theorem covers_nil (entityType : EntityType) : Covers { entityType } { entityType } :=
  fun _ => iff_of_false Std.TreeSet.not_mem_emptyc Std.TreeMap.not_mem_emptyc

theorem Covers.of_members_eq {c' : Catalog.Draft} (h : d.Covers c) (heq : c'.members = c.members) :
    d.Covers c' := by
  rw [Covers, heq]
  exact h

theorem Covers.addCall (h : d.Covers c) (call : AddCall) :
    (d.addCall call).1 = (c.addCall call).1 ∧ (d.addCall call).2.Covers (c.addCall call).2 := by
  by_cases hid : call.id ∈ c.members
  · rw [addCall_known ((h call.id).2 hid), Catalog.Draft.addCall_known hid]
    rcases call.replace with _ | _
    · exact ⟨rfl, h⟩
    · refine ⟨rfl, fun id => (h id).trans ?_⟩
      rw [if_pos rfl, Std.TreeMap.mem_insert, or_iff_right_of_imp]
      intro heq
      rwa [← Std.LawfulEqOrd.eq_of_compare heq]
  · rw [addCall_fresh (mt (h call.id).1 hid), Catalog.Draft.addCall_fresh hid]
    refine ⟨rfl, ?_⟩
    intro id
    rw [Std.TreeSet.mem_insert, Std.TreeMap.mem_insert]
    exact or_congr_right (h id)

/-- Calls do the same to a roster and to a catalog, as far as ids go. -/
theorem Covers.run (h : d.Covers c) (calls : List AddCall) :
    (run Roster.Draft.addCall calls d).1 = (run Catalog.Draft.addCall calls c).1 ∧
      (run Roster.Draft.addCall calls d).2.Covers (run Catalog.Draft.addCall calls c).2 := by
  have := run_related Covers id (P := fun _ => True) (fun _ _ _ => trivial)
    (fun call _ _ h _ => h.addCall call) calls h trivial
  rwa [List.map_id] at this

/-- The members of the roster are the records of the catalog, as far as their ids go. -/
theorem Covers.forall₂ (h : d.Covers c) (hc : c.Keyed) :
    List.Forall₂ (Backing.SameOn (· = Attribute.idName)) d.build.members c.records := by
  have hids : d.build.ids.toList = c.records.map Record.id := by
    refine eq_of_ascending d.ascending_build hc.build.ascending ?_
    intro id
    rw [toList_build, hc.filed.map_id_records, Std.TreeSet.mem_toList, Std.TreeMap.mem_keys]
    exact h id
  rw [Roster.members, hids, List.map_map, List.forall₂_map_left_iff, List.forall₂_same]
  intro m hm
  refine ⟨rfl, ?_⟩
  rintro name rfl
  exact ((Record.get?_idOnly ..).trans (if_pos rfl)).trans
    (hc m.id m (hc.filed.mem_records.1 hm)).2.symm

end Roster.Draft

/-! ## Agreement -/

/-- Rows and records that read like the same entries are the same. -/
theorem Table.Lists.sameOn {t : Table} {entries : List Entry} {records : List Record}
    (h : t.Lists entries) (h' : List.Forall₂ (Record.ReadsAs t.schema) records entries) :
    List.Forall₂ (Backing.SameOn fun _ => True) t.rows records := by
  rw [Table.Lists] at h
  generalize t.rows = rows at h
  induction h generalizing records with
  | nil =>
    rcases h' with _ | _
    exact .nil
  | cons hrow _ ih =>
    rcases h' with _ | ⟨hm, hrest⟩
    exact .cons ⟨hrow.1.trans hm.1.symm, fun name _ => (hrow.2 name).trans (hm.2 name).symm⟩
      (ih hrest)

/-- A value of another kind than that of the attribute with a name is not found under it. -/
theorem Table.Holds.find_eq_nil {t : Table} {entityType : EntityType} {schema : Schema}
    {entries : List Entry} (ht : t.Holds entityType schema entries) {name : String} {v : Value}
    (h : ∀ a ∈ schema.attributes, a.name = name → v.kind ≠ a.kind) : t.find name v = [] := by
  rw [ht.find_eq, List.filter_eq_nil_iff]
  intro r hr hv
  obtain ⟨p, -, rfl⟩ := List.mem_map.1 hr
  obtain ⟨a, ha, hname, hkind⟩ := ht.exists_of_get?_row (of_decide_eq_true hv)
  exact h a ha hname hkind

/-- A table looks at its schema to find rows by an attribute, a catalog at the kind of the value.
    It comes to the same for the entities of one schema. -/
theorem Table.Holds.map_id_findOf {t : Table} {entityType : EntityType} {schema : Schema}
    {entries : List Entry} {c : Catalog} {records : List Record}
    (ht : t.Holds entityType schema entries) (hc : c.Holds records)
    (hfound : ∀ name v, (t.find name v).map Row.id = (c.find name v).map Record.id)
    (a : Attribute) (v : Value) :
    (t.findOf a v).map Row.id = (c.findOf a v).map Record.id := by
  rw [t.findOf_eq, hc.findOf_eq, ht.schema_eq]
  -- Where only one of them looks, it finds nothing: what rows hold there is of another kind.
  by_cases ha : a ∈ schema.attributes
  · by_cases hv : a.kind.accepts v
    · rw [if_pos ha, if_pos hv, hfound]
    · rw [if_pos ha, if_neg hv, ht.find_eq_nil]
      · rfl
      · intro b hb hname
        rw [Schema.eq_of_name_eq hb ha hname]
        exact fun hkind => hv (decide_eq_true hkind)
  · by_cases hv : a.kind.accepts v
    · rw [if_neg ha, if_pos hv, ← hfound, ht.find_eq_nil]
      intro b hb hname hkind
      obtain rfl : a = b := by
        rcases a with ⟨name, kind⟩
        rcases b with ⟨name', kind'⟩
        exact congrArg₂ Attribute.mk hname.symm ((of_decide_eq_true hv).symm.trans hkind)
      exact ha hb
    · rw [if_neg ha, if_neg hv]
      rfl

/-- Any steps lead to a catalog. A roster that is made by the same calls has the same outcomes, and
    finds and groups nothing by other names than that of the id.

    If the steps add lawful entities, the roster has the same answers as the catalog as far as ids
    go. A table that is made by the same calls has the same outcomes and answers as the catalog,
    whatever indexes either is asked for, if moreover the entities conform to its schema, no
    replacement is asked for after an id has come late, and the rows are not too many for a
    table. -/
theorem backings_agree (entityType : EntityType) (steps : List BuildStep) :
    let kept := run Catalog.Draft.step steps { entityType }
    let outcomes := kept.1.filterMap id
    let c := kept.2.build
    let ids := run Roster.Draft.addCall (BuildStep.calls steps) { entityType }
    (ids.1 = outcomes ∧ ∀ name, name ≠ Attribute.idName →
      (∀ v, ids.2.build.find name v = []) ∧ ids.2.build.grouped name = []) ∧
    ((∀ call ∈ BuildStep.calls steps, Entity.Lawful call.value) →
      ids.2.build.backing.AgreeOn (· = Attribute.idName) c.backing ∧
      ∀ (schema : Schema) (settings : Table.Settings) (tableSteps : List BuildStep),
        BuildStep.calls tableSteps = BuildStep.calls steps →
        (∀ call ∈ BuildStep.calls steps, Entity.Conforms schema call.value) →
        Orderly (BuildStep.calls steps) → c.size ≤ Table.maxRows →
        let rows := run Table.Draft.step tableSteps { entityType, schema, settings }
        rows.1.filterMap id = outcomes.map .ok ∧
          ∃ t, rows.2.build = .ok t ∧ t.backing.AgreeOn (fun _ => True) c.backing ∧
            ∀ a v, (t.findOf a v).map Row.id = (c.findOf a v).map Record.id) := by
  intro kept outcomes c ids
  obtain ⟨houtcomes, hmembers⟩ := Catalog.Draft.run_step steps { entityType }
  obtain ⟨hsame, hcovers⟩ :=
    (Roster.Draft.covers_nil entityType).run (BuildStep.calls steps)
  refine ⟨⟨hsame.trans houtcomes.symm, fun name hname => ?_⟩, fun hlawful => ?_⟩
  · exact ⟨fun _ => if_neg hname, if_neg hname⟩
  have hkeyed : kept.2.Keyed :=
    ((Catalog.Draft.keyed_nil entityType).run _ hlawful).of_members_eq hmembers
  have hc : c.Holds kept.2.records := hkeyed.build
  constructor
  · have hmembers := (hcovers.of_members_eq hmembers).forall₂ hkeyed
    rw [← hc.members_eq] at hmembers
    exact ids.2.ascending_build.sound.agreeOn hc.sound hmembers
  · intro schema settings tableSteps hcalls hconforms horderly hroom
    obtain ⟨hsame, hmatches⟩ := Catalog.Draft.run_matches entityType hlawful hconforms horderly
    have hrecords := (hmatches.of_members_eq hmembers).forall₂
    rw [hc.size_eq, hrecords.length_eq, Register.length_entries] at hroom
    -- The register stands between table and catalog: both do what it does.
    obtain ⟨hrows, hrefines⟩ :=
      (Table.Draft.refines_nil entityType schema settings).run _ hroom
    obtain ⟨htable, indexed, hdraft⟩ :=
      Table.Draft.run_step tableSteps { entityType, schema, settings }
    rw [hcalls] at htable hdraft
    obtain ⟨t, hbuild, ht, hsorted⟩ := (hrefines.withIndexed indexed).build
    rw [← hdraft] at hbuild
    have hmembers : List.Forall₂ (Backing.SameOn fun _ => True) t.rows c.members.toList := by
      refine ht.lists.sameOn ?_
      rw [ht.schema_eq, hc.members_eq]
      exact hrecords
    have hagree : t.backing.AgreeOn (fun _ => True) c.backing :=
      (ht.sound hsorted).agreeOn hc.sound hmembers
    refine ⟨?_, t, hbuild, hagree, ht.map_id_findOf hc fun name => hagree.foundIds_eq name trivial⟩
    rw [htable, hrows, hsame, ← houtcomes]

theorem lawful_ratingRecord (id : Int64) (v : Value) :
    Entity.Lawful (Table.ratingRecord id v) := Record.lawful rfl

theorem conforms_ratingRecord (id : Int64) (x : Double) :
    Entity.Conforms Table.ratings (Table.ratingRecord id (.double x)) := by
  intro a v hmem
  have hfields : Entity.fields (Table.ratingRecord id (.double x))
      = [(.entityId, .long id), (.rating, .double x)] := rfl
  rw [hfields, List.mem_cons, List.mem_singleton] at hmem
  rcases hmem with heq | heq
  · obtain ⟨rfl, rfl⟩ := Prod.mk.inj heq
    exact ⟨by decide, rfl⟩
  · obtain ⟨rfl, rfl⟩ := Prod.mk.inj heq
    exact ⟨by decide, rfl⟩

/-- A rating is replaced, one comes late, and a last one is dropped: a table with an index of the
    ratings and a roster go along with the catalog. -/
theorem backings_agree_ratings :
    let first : AddCall := ⟨Table.ratingRecord 5 (.double ⟨0⟩), false⟩
    let better : AddCall := ⟨Table.ratingRecord 5 (.double ⟨1⟩), true⟩
    let late : AddCall := ⟨Table.ratingRecord 3 (.double ⟨1⟩), false⟩
    let again : AddCall := ⟨Table.ratingRecord 5 (.double ⟨2⟩), false⟩
    let calls := [first, better, late, again]
    let tableSteps := .addIndex "rating" :: calls.map BuildStep.add
    let c := (run Catalog.Draft.step (calls.map BuildStep.add) { entityType := ⟨"rating"⟩ }).2.build
    let rows := run Table.Draft.step tableSteps
      { entityType := ⟨"rating"⟩, schema := Table.ratings }
    let ids := run Roster.Draft.addCall calls { entityType := ⟨"rating"⟩ }
    Orderly calls ∧
      rows.1.filterMap id = [.ok .added, .ok .replaced, .ok .added, .ok .dropped] ∧
      ids.1 = [.added, .replaced, .added, .dropped] ∧
      (∃ t, rows.2.build = .ok t ∧ t.backing.AgreeOn (fun _ => True) c.backing) ∧
      ids.2.build.backing.AgreeOn (· = Attribute.idName) c.backing := by
  intro first better late again calls tableSteps c rows ids
  have horderly : Orderly ([] ++ [first] ++ [better] ++ [late] ++ [again]) := by
    refine orderly_concat.2 ⟨orderly_concat.2 ⟨orderly_concat.2 ⟨orderly_concat.2 ⟨orderly_nil, ?_⟩,
      ?_⟩, ?_⟩, nofun⟩
    · exact nofun
    · intro _ _ hscattered
      rcases (@scattered_concat [] _).1 hscattered with hnil | ⟨-, k, hk, -⟩
      · exact not_scattered_nil hnil
      · exact absurd hk List.not_mem_nil
    · exact nofun
  have hlawful : ∀ call ∈ calls, Entity.Lawful call.value := by
    simp only [calls, List.forall_mem_cons]
    exact ⟨lawful_ratingRecord _ _, lawful_ratingRecord _ _, lawful_ratingRecord _ _,
      lawful_ratingRecord _ _, nofun⟩
  have hconforms : ∀ call ∈ calls, Entity.Conforms Table.ratings call.value := by
    simp only [calls, List.forall_mem_cons]
    exact ⟨conforms_ratingRecord _ _, conforms_ratingRecord _ _, conforms_ratingRecord _ _,
      conforms_ratingRecord _ _, nofun⟩
  have hroom : c.size ≤ Table.maxRows := by
    rw [Catalog.Draft.size_build]
    decide
  obtain ⟨⟨hroster, -⟩, hagrees⟩ := backings_agree ⟨"rating"⟩ (calls.map BuildStep.add)
  obtain ⟨hids, htable⟩ := hagrees hlawful
  obtain ⟨hrows, t, hbuild, hagree, -⟩ :=
    htable Table.ratings {} tableSteps rfl hconforms horderly hroom
  exact ⟨horderly, hrows.trans (by decide), hroster.trans (by decide), ⟨t, hbuild, hagree⟩, hids⟩

end ColumnStore
