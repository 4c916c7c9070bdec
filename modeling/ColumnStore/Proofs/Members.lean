import ColumnStore.Proofs.Catalog.LastWrite
import ColumnStore.Proofs.Roster
import ColumnStore.Proofs.Table.Invariant

/-!
# Types of members

A collection is made for entities of one type, and yet no draft looks at the type of what it is
given. Whatever is asked of a collection, it hands out its members (`Backing.handsOut_iff`), which
have their type from where they are kept:

* A row has the type of its table (`Table.Holds.ofType`), and a roster makes its records of its own
  type (`Roster.Ascending.ofType`).
* A catalog keeps copies, each with the type that it came with. So they are of the type of the
  catalog if and only if those are that were written last (`run_memberTypes`).
-/

namespace ColumnStore

/-! ## What is handed out -/

namespace Backing

variable {ε : Type} {b : Backing ε} {e : ε}

/-- The entity is handed out in answer to some question. -/
inductive HandsOut (b : Backing ε) (e : ε) : Prop where
  | member (h : e ∈ b.members)
  | lookup (id : Int64) (h : b.lookup? id = some e)
  | find (name : String) (v : Value) (h : e ∈ b.find name v)
  | grouped (name : String) (v : Value) (es : List ε) (h : (v, es) ∈ b.grouped name) (he : e ∈ es)

/-- All that is handed out is of the given type, and its copies are, too. -/
def OfType [Entity ε] (b : Backing ε) (entityType : EntityType) : Prop :=
  ∀ e, b.HandsOut e →
    Entity.entityType e = entityType ∧ (Entity.toRecord e).entityType = entityType

/-- A backing that looks up and finds its members, and groups what it finds, hands out no more
    than these. -/
theorem handsOut_iff (hlookup : ∀ id e, b.lookup? id = some e → e ∈ b.members)
    (hfind : ∀ name v e, e ∈ b.find name v → e ∈ b.members)
    (hgroups : ∀ name, Postings.Groups (b.grouped name) (b.find name)) :
    b.HandsOut e ↔ e ∈ b.members := by
  constructor
  · intro h
    cases h with
    | member h => exact h
    | lookup id h => exact hlookup id e h
    | find name v h => exact hfind name v e h
    | grouped name v es h he =>
      -- The entities in a group are those that are found under its value.
      obtain ⟨rfl, -⟩ := ((hgroups name).mem_iff v es).1 h
      exact hfind name v e he
  · exact .member

theorem Sound.handsOut_iff [Entity ε] (hb : b.Sound) : b.HandsOut e ↔ e ∈ b.members := by
  refine Backing.handsOut_iff (fun id e h => ((hb.lookup?_eq_some id e).1 h).1) ?_ hb.groups
  intro name v e h
  rw [hb.find_eq] at h
  exact List.mem_of_mem_filter h

end Backing

namespace Table.Holds

variable {t : Table} {entityType : EntityType} {schema : Schema} {entries : List Entry}
  (ht : t.Holds entityType schema entries)
include ht

theorem handsOut_iff {r : Row} : t.backing.HandsOut r ↔ r ∈ t.rows := by
  refine Backing.handsOut_iff (b := t.backing) (fun id r h => ?_) (fun name v r h => ?_) ht.groups
  · obtain ⟨p, hp, rfl⟩ := Option.map_eq_some_iff.1 h
    exact List.mem_map.2 ⟨p, List.mem_range.2 (ht.positionOf?_eq_some_iff.1 hp).1, rfl⟩
  · have hr : r ∈ t.find name v := h
    rw [ht.find_eq] at hr
    exact List.mem_of_mem_filter hr

/-- Rows have the type of their table. -/
theorem ofType : t.backing.OfType entityType := by
  intro r hr
  obtain ⟨p, -, rfl⟩ := List.mem_map.1 (ht.handsOut_iff.1 hr)
  exact ⟨ht.entityType_eq, ht.entityType_eq⟩

end Table.Holds

namespace Roster

/-- The records of a roster are made of its own type. -/
theorem Ascending.ofType {r : Roster} {entityType : EntityType} (hr : r.Ascending)
    (htype : r.entityType = entityType) : r.backing.OfType entityType := by
  intro m hm
  obtain ⟨id, -, rfl⟩ := List.mem_map.1 (hr.sound.handsOut_iff.1 hm)
  exact ⟨htype, htype⟩

/-- No call changes the type that a roster is made for. -/
theorem Draft.entityType_run (calls : List AddCall) (d : Draft) :
    (run addCall calls d).2.entityType = d.entityType := by
  refine run_keeps (P := fun d' : Draft => d'.entityType = d.entityType) ?_ calls rfl
  intro call d' h
  rw [← h]
  by_cases hid : call.id ∈ d'.ids
  · rw [addCall_known hid]
  · rw [addCall_fresh hid]

end Roster

namespace Catalog

variable {c : Catalog} {records : List Record} {r : Record}

theorem Keeps.handsOut_iff (hc : c.Keeps records) : c.backing.HandsOut r ↔ r ∈ records := by
  rw [← hc.members_eq]
  refine Backing.handsOut_iff (b := c.backing) (fun id r h => ?_) (fun name v r h => ?_) hc.groups
  · have hr := (hc.of_lookup? h).1
    rwa [← hc.members_eq] at hr
  · have hr : r ∈ c.find name v := h
    rw [hc.find_eq, ← hc.members_eq] at hr
    exact List.mem_of_mem_filter hr

namespace Draft

/-- After any steps, the records of a new draft are the copies that were written last. -/
theorem mem_records_run {entityType : EntityType} {steps : List BuildStep} :
    r ∈ (run step steps { entityType }).2.records ↔ ∃ key call,
      lastAccepted? (BuildStep.calls steps) ((run step steps { entityType }).1.filterMap id) key
        = some call ∧ Entity.toRecord call.value = r := by
  obtain ⟨houtcomes, hmembers⟩ := run_step steps { entityType }
  rw [mem_records_iff, hmembers, houtcomes]
  refine exists_congr fun key => ?_
  rw [getElem?_run, Option.map_eq_some_iff]

/-- No step changes the type that a catalog is made for. -/
theorem entityType_run (steps : List BuildStep) (d : Draft) :
    (run step steps d).2.entityType = d.entityType := by
  refine run_keeps (P := fun d' : Draft => d'.entityType = d.entityType) ?_ steps rfl
  intro s d' h
  rw [← h]
  cases s with
  | add call =>
    have hstep : (step (.add call) d').2 = (d'.addCall call).2 := rfl
    rw [hstep]
    by_cases hid : call.id ∈ d'.members
    · rw [addCall_known hid]
      split <;> rfl
    · rw [addCall_fresh hid]
  | addIndex name =>
    rw [step, addIndex]
    split <;> rfl
  | addIndexOf a => rfl

end Draft

end Catalog

/-- After any steps, all that is handed out by the table that a new draft is built to, or peeked at,
    is of the type of the draft, and so is all that a roster of the same entities hands out. A
    catalog of them hands out the copies that were written last to their ids, each with the type
    that it has. -/
theorem run_memberTypes (entityType : EntityType) (schema : Schema) (settings : Table.Settings)
    (steps : List BuildStep) :
    let calls := BuildStep.calls steps
    let d := (run Table.Draft.step steps { entityType, schema, settings }).2
    let r := (run Roster.Draft.addCall calls { entityType }).2.build
    let (given, c) := run Catalog.Draft.step steps { entityType }
    let last? := Catalog.Draft.lastAccepted? calls (given.filterMap id)
    (∃ built peeked, d.build = .ok built ∧ d.peek = .ok peeked ∧
      ∀ t ∈ [built, peeked], t.entityType = entityType ∧ t.backing.OfType entityType) ∧
    (r.entityType = entityType ∧ r.backing.OfType entityType) ∧
    c.build.entityType = entityType ∧
      (∀ e, c.build.backing.HandsOut e ↔
        ∃ key call, last? key = some call ∧ Entity.toRecord call.value = e) ∧
      (c.build.backing.OfType entityType ↔
        ∀ key call, last? key = some call →
          (Entity.toRecord call.value).entityType = entityType) := by
  have hroster := Roster.Draft.entityType_run (BuildStep.calls steps) { entityType }
  have hkept (e : Record) :=
    ((Catalog.Draft.build_keeps (run Catalog.Draft.step steps { entityType }).2).handsOut_iff
      (r := e)).trans Catalog.Draft.mem_records_run
  refine ⟨?_, ⟨hroster, (Roster.Draft.ascending_build _).ofType hroster⟩,
    Catalog.Draft.entityType_run steps { entityType }, hkept, ?_⟩
  · exact Table.Draft.run_forall_tables entityType schema settings steps fun t entries ht =>
      ⟨ht.entityType_eq, ht.ofType⟩
  · constructor
    · intro h key call hlast
      exact (h _ ((hkept _).2 ⟨key, call, hlast, rfl⟩)).1
    · intro h e he
      obtain ⟨key, call, hlast, rfl⟩ := (hkept e).1 he
      exact ⟨h key call hlast, h key call hlast⟩

/-- An item that is added to a catalog of ratings stays an item, where a roster of ratings makes a
    rating of it. -/
theorem Catalog.keeps_foreign_type :
    let call : AddCall := ⟨Record.idOnly ⟨"item"⟩ 1, false⟩
    let c := (run Draft.addCall [call] { entityType := ⟨"rating"⟩ }).2.build
    let r := (run Roster.Draft.addCall [call] { entityType := ⟨"rating"⟩ }).2.build
    c.entityType = ⟨"rating"⟩ ∧ c.lookup? 1 = some (.idOnly ⟨"item"⟩ 1) ∧
      r.lookup? 1 = some (.idOnly ⟨"rating"⟩ 1) ∧ ¬c.backing.OfType c.entityType := by
  intro call c r
  have hlookup : c.lookup? 1 = some (.idOnly ⟨"item"⟩ 1) := by decide +kernel
  refine ⟨rfl, hlookup, by decide +kernel, fun h => ?_⟩
  exact absurd (h _ (.lookup 1 hlookup)).1 (by decide)

end ColumnStore
