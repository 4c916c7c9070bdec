import ColumnStore.Catalog
import ColumnStore.Proofs.Backing
import ColumnStore.Proofs.Calls
import ColumnStore.Proofs.Entity
import ColumnStore.Proofs.Grouping
import ColumnStore.Proofs.RecordIndex
import Mathlib.Data.List.Nodup

/-!
# Catalogs answer from their records

A catalog keeps a list of records (`Catalog.Keeps`) when they are its members and its positions and
indexes are made of them. Then the records that hold a value are found in their order, with an index
or without (`Keeps.find_eq`, `Keeps.findOf_eq`), and they make up the groups (`Keeps.groups`). What
is looked up by an id is a record that has it (`Keeps.of_lookup?`). If no two records have one id
(`Catalog.Holds`), it is the only one (`Holds.lookup?_eq_some`), and the catalog is a sound backing
of collections (`Holds.sound`).

A draft is built to a catalog that keeps its records, whatever indexes were asked for
(`Draft.build_keeps`). They are sorted by the ids that they have themselves
(`Draft.ascending_records`), which are the ids of the entities if each record is filed under its own
(`Draft.Filed.build`), as all are if the calls add lawful entities (`Draft.Keyed`).
-/

namespace ColumnStore

namespace Catalog

/-- The catalog has the records as its members, in its table of positions and in its indexes. -/
structure Keeps (c : Catalog) (records : List Record) : Prop where
  members_eq : c.members.toList = records
  positions_eq : c.positions = .ofList (records.map Record.id).zipIdx
  index_eq : ∀ name i, c.index? name = some i → i = .ofRecords name none records
  indexOf_eq : ∀ a i, c.indexOf? a = some i → i = .ofRecords a.name (some a.kind) records

/-- The catalog keeps the records, and they are in ascending order of their ids. -/
structure Holds (c : Catalog) (records : List Record) : Prop extends Keeps c records where
  ascending : (records.map Record.id).Pairwise (· < ·)

/-- A catalog as a backing of collections. -/
def backing (c : Catalog) : Backing Record where
  size := c.size
  ids := c.ids
  members := c.members.toList
  lookup? := c.lookup?
  contains := c.contains
  find := c.find
  grouped := c.grouped

/-! ## Tables of positions -/

section Positions

variable {ids : List Int64} {id : Int64} {p : Nat}

/-- A table of positions has one for each id that there is. -/
theorem mem_positions : id ∈ Std.TreeMap.ofList ids.zipIdx ↔ id ∈ ids := by
  rw [Std.TreeMap.mem_ofList, List.zipIdx_map_fst, List.contains_iff_mem]

/-- The id is at its position, also if it is at others. -/
theorem getElem?_of_positions (h : (Std.TreeMap.ofList ids.zipIdx)[id]? = some p) :
    ids[p]? = some id := by
  rw [Std.TreeMap.ofList_eq_insertMany_empty, Std.TreeMap.getElem?_insertMany_list,
    Std.TreeMap.getElem?_emptyc, Option.or_none, List.findSomeRev?_eq_findSome?_reverse] at h
  obtain ⟨⟨id', q⟩, hmem, hq⟩ := List.exists_of_findSome?_eq_some h
  rw [Option.ite_none_right_eq_some, Option.some_inj] at hq
  obtain ⟨hid, rfl⟩ := hq
  rw [← Std.LawfulEqOrd.eq_of_compare hid]
  exact List.mk_mem_zipIdx_iff_getElem?.1 (List.mem_reverse.1 hmem)

end Positions

/-- The groups are listed by ascending values. -/
theorem ascends_grouped (c : Catalog) (name : String) : Postings.Ascends (c.grouped name) := by
  rw [grouped]
  rcases c.index? name with _ | i
  · exact Grouping.ascends_listing _
  · exact Postings.ascends_groups _

namespace Keeps

variable {c : Catalog} {records : List Record} (hc : c.Keeps records)
include hc

/-- All ways to the records that hold a value lead to the same ones. -/
theorem find_eq (name : String) (v : Value) :
    c.find name v = records.filter fun r => r.get? name = some v := by
  rcases hindex : c.index? name with _ | i
  · simp only [find, hindex, hc.members_eq]
  · simp only [find, hindex]
    rw [hc.index_eq name i hindex, RecordIndex.find_ofRecords rfl]

/-- Records are found by an attribute as by its name, if the value is of its kind. -/
theorem findOf_eq (a : Attribute) (v : Value) :
    c.findOf a v = if a.kind.accepts v then c.find a.name v else [] := by
  by_cases hv : a.kind.accepts v
  · rw [findOf, if_pos hv, if_pos hv]
    rcases hindex : c.indexOf? a with _ | i
    · rfl
    · rw [hc.indexOf_eq a i hindex, hc.find_eq]
      exact RecordIndex.find_ofRecords hv
  · rw [findOf, if_neg hv, if_neg hv]

/-- The groups are the records that are found under each value, with an index and without. -/
theorem groups (name : String) : Postings.Groups (c.grouped name) (c.find name) := by
  have hfind : c.find name = fun v => records.filter fun r => r.get? name = some v := by
    funext v
    exact hc.find_eq name v
  rw [hfind, grouped]
  rcases hindex : c.index? name with _ | i
  · rw [← funext (Postings.under_map_key (Record.get? · name) records), ← hc.members_eq]
    exact Grouping.groups_listing _
  · rw [hc.index_eq name i hindex]
    exact RecordIndex.groups_ofRecords name records

/-- At each position that the table has for an id there is a member with it. -/
theorem exists_getElem?_members {id : Int64} {p : Nat} (hp : c.positions[id]? = some p) :
    ∃ r ∈ records, c.members[p]? = some r ∧ r.id = id := by
  rw [hc.positions_eq] at hp
  obtain ⟨r, hr, hid⟩ := Option.map_eq_some_iff.1 (List.getElem?_map .. ▸ getElem?_of_positions hp)
  rw [← Array.getElem?_toList, hc.members_eq]
  exact ⟨r, List.mem_of_getElem? hr, hr, hid⟩

/-- What is looked up by an id is a member that has it. -/
theorem of_lookup? {id : Int64} {r : Record} (h : c.lookup? id = some r) :
    r ∈ records ∧ r.id = id := by
  obtain ⟨p, hp, hr⟩ := Option.bind_eq_some_iff.1 h
  obtain ⟨s, hmem, hs, hid⟩ := hc.exists_getElem?_members hp
  obtain rfl := Option.some_inj.1 (hs.symm.trans hr)
  exact ⟨hmem, hid⟩

theorem contains_iff (id : Int64) : c.contains id ↔ id ∈ records.map Record.id := by
  rw [contains, hc.positions_eq, Std.TreeMap.contains_iff_mem, mem_positions]

theorem contains_eq (id : Int64) : c.contains id = (c.lookup? id).isSome := by
  rw [contains, lookup?, Std.TreeMap.contains_eq_isSome_getElem?]
  rcases hp : c.positions[id]? with _ | p
  · rfl
  · obtain ⟨r, -, hr, -⟩ := hc.exists_getElem?_members hp
    rw [Option.bind_some, hr]
    rfl

end Keeps

namespace Holds

variable {c : Catalog} {records : List Record} {id : Int64} {r : Record} (hc : c.Holds records)
include hc

theorem size_eq : c.size = records.length := by rw [size, ← hc.members_eq, Array.length_toList]

theorem ids_eq : c.ids = records.map Record.id := by rw [ids, hc.members_eq]

/-- A record is looked up by its id. -/
theorem lookup?_eq_some : c.lookup? id = some r ↔ r ∈ records ∧ r.id = id := by
  constructor
  · exact hc.of_lookup?
  · rintro ⟨hr, rfl⟩
    have hcontains := (hc.contains_iff r.id).2 (List.mem_map_of_mem hr)
    rw [hc.contains_eq, Option.isSome_iff_exists] at hcontains
    obtain ⟨s, hs⟩ := hcontains
    -- No two records have one id.
    obtain ⟨hmem, hid⟩ := hc.of_lookup? hs
    have hnodup : (records.map Record.id).Nodup := hc.ascending.imp Int64.ne_of_lt
    rw [hs, List.inj_on_of_nodup_map hnodup hmem hr hid]

theorem sound : c.backing.Sound where
  size_eq := Array.length_toList.symm
  ids_eq := rfl
  ascending := by
    dsimp only [backing]
    rw [hc.ids_eq]
    exact hc.ascending
  lookup?_eq_some id r := by
    dsimp only [backing]
    rw [hc.members_eq]
    exact hc.lookup?_eq_some
  contains_eq := hc.contains_eq
  find_eq name v := by
    dsimp only [backing]
    rw [hc.members_eq]
    exact hc.find_eq name v
  groups := hc.groups

end Holds

/-! ## Drafts -/

namespace Draft

/-- Adds the entity of a call to a draft. -/
def addCall (call : AddCall) (d : Draft) : AddOutcome × Draft := d.add call.value call.replace

/-- Takes a step of a draft. A request for an index has no outcome. -/
def step : BuildStep → Draft → Option AddOutcome × Draft
  | .add call, d => let (outcome, d) := d.addCall call; (some outcome, d)
  | .addIndex name, d => (none, d.addIndex name)
  | .addIndexOf a, d => (none, d.addIndexOf a)

/-- Each record is filed under its id. -/
def Filed (d : Draft) : Prop := ∀ (id : Int64) (r : Record), d.members[id]? = some r → r.id = id

/-- Each record is kept under its id, which it also has under the name of the id. -/
def Keyed (d : Draft) : Prop :=
  ∀ (id : Int64) (r : Record), d.members[id]? = some r →
    r.id = id ∧ r.get? Attribute.idName = some (.long id)

variable {d d' : Draft} {call : AddCall} {r : Record}

theorem keyed_nil (entityType : EntityType) : Keyed { entityType } := by
  intro id r hr
  rw [Std.TreeMap.getElem?_emptyc] at hr
  exact absurd hr nofun

theorem Keyed.of_members_eq (h : d.Keyed) (heq : d'.members = d.members) : d'.Keyed := by
  rw [Keyed, heq]
  exact h

theorem addCall_fresh (hid : call.id ∉ d.members) :
    d.addCall call
      = (.added, { d with members := d.members.insert call.id (Entity.toRecord call.value) }) :=
  if_neg (Std.TreeMap.contains_iff_mem.not.2 hid)

theorem addCall_known (hid : call.id ∈ d.members) :
    d.addCall call = if call.replace then
      (.replaced, { d with members := d.members.insert call.id (Entity.toRecord call.value) })
    else (.dropped, d) :=
  if_pos (Std.TreeMap.contains_iff_mem.2 hid)

/-- An entity that is added with or without replacing another is kept under its id. -/
theorem Keyed.insert (h : d.Keyed) (hcall : Entity.Lawful call.value) :
    Keyed { d with members := d.members.insert call.id (Entity.toRecord call.value) } := by
  intro id r hr
  rw [Std.TreeMap.getElem?_insert] at hr
  split at hr
  · rename_i heq
    rw [← Option.some_inj.1 hr, ← Std.LawfulEqOrd.eq_of_compare heq]
    exact ⟨hcall.id_toRecord, hcall.get?_id⟩
  · exact h id r hr

theorem Keyed.addCall (h : d.Keyed) (hcall : Entity.Lawful call.value) :
    (d.addCall call).2.Keyed := by
  by_cases hid : call.id ∈ d.members
  · rw [addCall_known hid]
    split
    · exact h.insert hcall
    · exact h
  · rw [addCall_fresh hid]
    exact h.insert hcall

/-- Calls that add lawful entities keep each under its id. -/
theorem Keyed.run (calls : List AddCall) (hcalls : ∀ call ∈ calls, Entity.Lawful call.value)
    (h : d.Keyed) : (run Draft.addCall calls d).2.Keyed := by
  induction calls generalizing d with
  | nil => exact h
  | cons call rest ih =>
    rw [List.forall_mem_cons] at hcalls
    exact ih hcalls.2 (h.addCall hcalls.1)

theorem addCall_of_members_eq (h : d.members = d'.members) (call : AddCall) :
    (d.addCall call).1 = (d'.addCall call).1 ∧
      (d.addCall call).2.members = (d'.addCall call).2.members := by
  by_cases hid : call.id ∈ d'.members
  · rw [addCall_known hid, addCall_known (h ▸ hid), h]
    split
    · exact ⟨rfl, rfl⟩
    · exact ⟨rfl, h⟩
  · rw [addCall_fresh hid, addCall_fresh (h ▸ hid), h]
    exact ⟨rfl, rfl⟩

/-- Steps do to the records of a draft what their calls do. -/
theorem run_step (steps : List BuildStep) (d : Draft) :
    (run step steps d).1.filterMap id = (run addCall (BuildStep.calls steps) d).1 ∧
      (run step steps d).2.members = (run addCall (BuildStep.calls steps) d).2.members := by
  refine run_filterMap (fun d d' : Draft => d.members = d'.members) BuildStep.call? ?_ ?_ steps rfl
  · intro step d d' hstep h
    rcases step with call | name | a
    · exact absurd hstep nofun
    · refine ⟨rfl, Eq.trans ?_ h⟩
      rw [Draft.step, addIndex]
      split <;> rfl
    · exact ⟨rfl, h⟩
  · intro step call d d' hstep h
    rcases step with call' | name | a
    · obtain rfl := Option.some_inj.1 hstep
      obtain ⟨houtcome, hmembers⟩ := addCall_of_members_eq h call'
      exact ⟨congrArg some houtcome, hmembers⟩
    · exact absurd hstep nofun
    · exact absurd hstep nofun

/-- The records are those that were kept under some id. -/
theorem mem_records_iff : r ∈ d.records ↔ ∃ id : Int64, d.members[id]? = some r := by
  rw [records, List.mem_mergeSort, List.mem_map]
  simp only [Prod.exists, Std.TreeMap.mem_toList_iff_getElem?_eq_some, exists_eq_right]

/-- The ids of the records ascend, whatever the records are filed under. -/
theorem ascending_records (d : Draft) : (d.records.map Record.id).Pairwise (· ≤ ·) := by
  rw [List.pairwise_map, records]
  refine (List.pairwise_mergeSort (fun r s t hrs hst => ?_) (fun r s => ?_) _).imp of_decide_eq_true
  · exact decide_eq_true (Int64.le_trans (of_decide_eq_true hrs) (of_decide_eq_true hst))
  · rw [Bool.or_eq_true, decide_eq_true_iff, decide_eq_true_iff]
    exact Int64.le_total r.id s.id

theorem Filed.mem_records (h : d.Filed) : r ∈ d.records ↔ d.members[r.id]? = some r := by
  rw [mem_records_iff]
  constructor
  · rintro ⟨id, hr⟩
    rw [h id r hr, hr]
  · exact fun hr => ⟨r.id, hr⟩

theorem Filed.map_id_members (h : d.Filed) :
    (d.members.toList.map Prod.snd).map Record.id = d.members.keys := by
  rw [List.map_map, ← Std.TreeMap.map_fst_toList_eq_keys]
  refine List.map_congr_left fun ⟨id, r⟩ hmem => ?_
  exact h id r (Std.TreeMap.mem_toList_iff_getElem?_eq_some.1 hmem)

/-- Records that are filed under their ids are in order already. -/
theorem Filed.map_id_records (h : d.Filed) : d.records.map Record.id = d.members.keys := by
  rw [records, List.mergeSort_of_pairwise, h.map_id_members]
  have hkeys := (Std.TreeMap.ordered_keys (t := d.members)).imp Std.compare_eq_lt.1
  rw [← h.map_id_members, List.pairwise_map] at hkeys
  exact hkeys.imp fun hlt => decide_eq_true (Int64.le_of_lt hlt)

/-- A catalog has as many records as its draft. -/
theorem size_build (d : Draft) : d.build.size = d.size := by
  rw [Catalog.size, build, List.size_toArray, records, List.length_mergeSort, List.length_map,
    Std.TreeMap.length_toList, size]

/-- A draft is built to a catalog of its records. -/
theorem build_keeps (d : Draft) : d.build.Keeps d.records where
  members_eq := rfl
  positions_eq := rfl
  index_eq name i hindex := by
    obtain ⟨name', -, rfl⟩ := List.mem_map.1 (List.mem_of_find?_eq_some hindex)
    have hname := List.find?_some hindex
    obtain rfl : name' = name := of_decide_eq_true hname
    rfl
  indexOf_eq a i hindex := by
    obtain ⟨a', -, rfl⟩ := List.mem_map.1 (List.mem_of_find?_eq_some hindex)
    have heq := List.find?_some hindex
    obtain ⟨hname, hkind⟩ : a'.name = a.name ∧ some a'.kind = some a.kind := of_decide_eq_true heq
    rw [hname, hkind]

/-- Records that are filed under their ids are in ascending order of these. -/
theorem Filed.build (h : d.Filed) : d.build.Holds d.records where
  toKeeps := d.build_keeps
  ascending := by
    rw [h.map_id_records]
    exact Std.TreeMap.ordered_keys.imp Std.compare_eq_lt.1

theorem Keyed.filed (h : d.Keyed) : d.Filed := fun id r hr => (h id r hr).1

theorem Keyed.build (h : d.Keyed) : d.build.Holds d.records := h.filed.build

end Draft

end Catalog

end ColumnStore
