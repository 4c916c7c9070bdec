import ColumnStore.Proofs.Backing
import ColumnStore.Proofs.Calls
import ColumnStore.Proofs.Entity
import ColumnStore.Proofs.Search
import ColumnStore.Roster

/-!
# Rosters answer from their ids

The members of a roster hold nothing but their ids, which ascend (`Roster.Ascending`). So a
member is looked up by its id (`Ascending.lookup?_eq_some`), the members that hold a value are
found as in any list of records (`Ascending.find_eq`), and they make up the groups
(`Ascending.groups`). It is a sound backing of collections (`Ascending.sound`), though it has no
more than its ids to answer from.
-/

namespace ColumnStore

/-- A record of an id alone has a value under no other name. -/
theorem Record.get?_idOnly (entityType : EntityType) (id : Int64) (name : String) :
    (idOnly entityType id).get? name
      = if name = Attribute.idName then some (.long id) else none := by
  have hmem (v : Value) :
      (idOnly entityType id).get? name = some v ↔ name = Attribute.idName ∧ .long id = v := by
    rw [get?_eq_some]
    constructor
    · rintro ⟨a, hmem, rfl⟩
      obtain ⟨rfl, rfl⟩ := Prod.mk.inj (List.mem_singleton.1 hmem)
      exact ⟨rfl, rfl⟩
    · rintro ⟨rfl, rfl⟩
      exact ⟨.entityId, List.mem_singleton_self _, rfl⟩
  ext v
  rw [hmem]
  split <;> simp [*]

namespace Roster

/-- The ids of the roster ascend. -/
def Ascending (r : Roster) : Prop := r.ids.toList.Pairwise (· < ·)

/-- A roster as a backing of collections. -/
def backing (r : Roster) : Backing Record where
  size := r.size
  ids := r.ids.toList
  members := r.members
  lookup? := r.lookup?
  contains := r.contains
  find := r.find
  grouped := r.grouped

namespace Ascending

variable {r : Roster} {id : Int64} {m : Record} (hr : r.Ascending)
include hr

theorem nodup : r.ids.toList.Nodup := hr.imp Std.ne_of_lt

theorem contains_iff : r.contains id ↔ id ∈ r.ids.toList := by
  have hidAt : (r.ids.getD · 0) = fun p => r.ids.toList[p]?.getD 0 := by
    funext p
    rw [Array.getD_eq_getD_getElem?, Array.getElem?_toList]
  rw [contains, hidAt, size, ← Array.length_toList]
  exact isSome_search_getElem? hr

/-- A member is looked up by its id. -/
theorem lookup?_eq_some : r.lookup? id = some m ↔ m ∈ r.members ∧ m.id = id := by
  rw [members, List.mem_map]
  by_cases hid : id ∈ r.ids.toList
  · rw [lookup?, if_pos (hr.contains_iff.2 hid), Option.some_inj]
    constructor
    · rintro rfl
      exact ⟨⟨id, hid, rfl⟩, rfl⟩
    · rintro ⟨⟨id', -, rfl⟩, rfl⟩
      rfl
  · rw [lookup?, if_neg (hr.contains_iff.not.2 hid)]
    refine ⟨nofun, ?_⟩
    rintro ⟨⟨id', hid', rfl⟩, rfl⟩
    exact absurd hid' hid

theorem lookup?_toList (id : Int64) :
    (r.lookup? id).toList = r.members.filter fun m => m.id = id := by
  have hfilter : (r.members.filter fun m => m.id = id)
      = (r.ids.toList.filter (· = id)).map r.member := by
    rw [members, List.filter_map]
    rfl
  rw [hfilter, List.filter_eq]
  by_cases hid : id ∈ r.ids.toList
  · rw [lookup?, if_pos (hr.contains_iff.2 hid), List.count_eq_one_of_mem hr.nodup hid]
    rfl
  · rw [lookup?, if_neg (hr.contains_iff.not.2 hid), List.count_eq_zero_of_not_mem hid]
    rfl

/-- The members that hold a value: one under the name of the id, and none else. -/
theorem find_eq (name : String) (v : Value) :
    r.find name v = r.members.filter fun m => m.get? name = some v := by
  have hget : ∀ m ∈ r.members, m.get? name
      = if name = Attribute.idName then some (.long m.id) else none := by
    rintro m hm
    obtain ⟨id, -, rfl⟩ := List.mem_map.1 hm
    exact Record.get?_idOnly r.entityType id name
  have hfilter : (r.members.filter fun m => m.get? name = some v)
      = r.members.filter fun m => name = Attribute.idName ∧ .long m.id = v :=
    List.filter_congr fun m hm => by
      rw [hget m hm]
      split <;> simp [*]
  rw [hfilter, find]
  by_cases hname : name = Attribute.idName
  · rcases v with n | n | x | b | s
    · simp [hname, Value.long?, hr.lookup?_toList]
    all_goals simp [hname, Value.long?]
  · simp [hname]

/-- The groups are the members that are found under each value. -/
theorem groups (name : String) : Postings.Groups (r.grouped name) (r.find name) := by
  by_cases hname : name = Attribute.idName
  · have hgrouped : r.grouped name = r.ids.toList.map fun id => (.long id, [r.member id]) := by
      rw [grouped, if_pos hname, members, List.map_map]
      rfl
    have hfind (v : Value) : r.find name v = (v.long?.bind r.lookup?).toList := if_pos hname
    constructor
    · rw [hgrouped, List.map_map]
      exact hr.nodup.map fun _ _ h => Value.long.inj h
    · intro v xs
      rw [hgrouped, hfind, List.mem_map]
      constructor
      · rintro ⟨id, hid, heq⟩
        obtain ⟨rfl, rfl⟩ := Prod.mk.inj heq
        have hlookup : r.lookup? id = some (r.member id) := if_pos (hr.contains_iff.2 hid)
        exact ⟨by rw [Value.long?, Option.bind_some, hlookup, Option.toList_some], nofun⟩
      · rintro ⟨rfl, hne⟩
        rcases hv : v.long?.bind r.lookup? with _ | m
        · exact absurd (by rw [hv, Option.toList_none]) hne
        · obtain ⟨id, hlong, hm⟩ := Option.bind_eq_some_iff.1 hv
          obtain rfl := Value.long?_eq_some.1 hlong
          obtain ⟨hmem, rfl⟩ := hr.lookup?_eq_some.1 hm
          obtain ⟨id, hid, rfl⟩ := List.mem_map.1 hmem
          exact ⟨id, hid, rfl⟩
  · have hgrouped : r.grouped name = [] := if_neg hname
    have hfind : r.find name = fun _ => [] := by
      funext v
      exact if_neg hname
    rw [hgrouped, hfind]
    exact .nil

theorem sound : r.backing.Sound where
  size_eq := by
    rw [backing, members, List.length_map, Array.length_toList, size]
  ids_eq := by
    rw [backing, members, List.map_map]
    exact (List.map_id _).symm
  ascending := hr
  lookup?_eq_some _ _ := hr.lookup?_eq_some
  contains_eq id := by
    dsimp only [backing]
    rw [lookup?]
    cases r.contains id <;> rfl
  find_eq := hr.find_eq
  groups := hr.groups

end Ascending

/-! ## Drafts -/

namespace Draft

/-- Adds the entity of a call to a draft. -/
def addCall (call : AddCall) (d : Draft) : AddOutcome × Draft := d.add call.value call.replace

variable {d : Draft} {call : AddCall}

theorem addCall_fresh (hid : call.id ∉ d.ids) :
    d.addCall call = (.added, { d with ids := d.ids.insert call.id }) :=
  if_neg (Std.TreeSet.contains_iff_mem.not.2 hid)

theorem addCall_known (hid : call.id ∈ d.ids) :
    d.addCall call = (if call.replace then .replaced else .dropped, d) :=
  if_pos (Std.TreeSet.contains_iff_mem.2 hid)

theorem toList_build (d : Draft) : d.build.ids.toList = d.ids.toList := Std.TreeSet.toList_toArray

/-- A draft is built to a roster of its ids in ascending order. -/
theorem ascending_build (d : Draft) : d.build.Ascending := by
  rw [Ascending, toList_build]
  exact Std.TreeSet.ordered_toList.imp Std.compare_eq_lt.1

end Draft

end Roster

end ColumnStore
