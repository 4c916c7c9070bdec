import ColumnStore.Proofs.Backing
import ColumnStore.Proofs.Grouping
import ColumnStore.Proofs.Index
import ColumnStore.Proofs.Table.Basic

/-!
# Tables answer from their rows

However a table comes to an answer, from an index, by search, or by looking through a column
(`scan_eq`, `groups_collect`), it is the one that its rows give (`Table.AnswersFromRows`): the rows
that hold a value are those of all rows, in order, that read so, and the groups are the lists of
such rows, one for each value that any row has (`Holds.answersFromRows`). With its rows in ascending
order of their ids, a table is a sound backing of collections (`Holds.sound`).
-/

namespace ColumnStore

namespace Table

/-- What a table answers about values is what its rows tell. -/
structure AnswersFromRows (t : Table) : Prop where
  find_eq : ∀ name v, t.find name v = t.rows.filter fun r => r.get? name = some v
  findOf_eq : ∀ a v, t.findOf a v = if a ∈ t.schema.attributes then t.find a.name v else []
  /-- Each value has one group. -/
  nodup_grouped : ∀ name, ((t.grouped name).map Prod.fst).Nodup
  /-- The group of a value has all the rows that hold it, of which there are some. -/
  mem_grouped : ∀ name v rs, (v, rs) ∈ t.grouped name ↔ rs = t.find name v ∧ rs ≠ []
  /-- A row is in the group of its value and in no other. -/
  mem_group : ∀ name v rs r, (v, rs) ∈ t.grouped name →
    (r ∈ rs ↔ r ∈ t.rows ∧ r.get? name = some v)

/-- A table as a backing of collections. -/
def backing (t : Table) : Backing Row where
  size := t.size
  ids := t.idSet.toList
  members := t.rows
  lookup? := t.lookup?
  contains := t.contains
  find := t.find
  grouped := t.grouped

variable {t : Table} {entityType : EntityType} {schema : Schema} {entries : List Entry}
  {a : Attribute} {i : Nat} {name : String} {v : Value}

/-- Rows are found by an attribute as by its name if the schema has it with the same kind. -/
theorem findOf_eq (t : Table) (a : Attribute) (v : Value) :
    t.findOf a v = if a ∈ t.schema.attributes then t.find a.name v else [] := by
  rw [findOf, find, Schema.positionOf?_eq]
  by_cases ha : a ∈ t.schema.attributes
  · rw [if_pos ha, if_pos ha]
  · rw [if_neg ha, if_neg ha]

/-- A column is looked through for the rows that read so, by its bare numbers or by its values. -/
theorem scan_eq {c : Column} {kind : Kind} {cells : List (Option Value)} (hc : c.Holds kind cells)
    (hsize : t.size = cells.length) (v : Value) :
    t.scan c v = (positionsOf cells v).map (⟨t, ·⟩) := by
  have hfilter : t.scan c v
      = ((List.range t.size).filter fun p => c.get? p = some v).map (⟨t, ·⟩) := by
    unfold scan
    split
    · rename_i n hkind
      simp only [hc.getInteger?_eq_some (hc.kind'.symm.trans hkind)]
    · rfl
  rw [hfilter, positionsOf, hsize]
  simp only [hc.get?_eq]

/-- Going through a column comes to the rows that hold each value. -/
theorem groups_collect {c : Column} {kind : Kind} {cells : List (Option Value)}
    (hc : c.Holds kind cells) :
    Postings.Groups (t.collect c).listing fun v => (positionsOf cells v).map (⟨t, ·⟩) := by
  have hunder (v : Value) :
      Postings.under (c.toList.zipIdx.map fun cell => (cell.1, (⟨t, cell.2⟩ : Row))) v
        = (positionsOf cells v).map (⟨t, ·⟩) := by
    rw [hc.toList_eq, ← under_zipIdx, Postings.under_map]
  rw [← funext hunder]
  exact Grouping.groups_listing _

namespace Holds

variable (ht : t.Holds entityType schema entries)
include ht

/-- The rows that read so under the name of an attribute are those that hold the value in its
    column. -/
theorem filter_rows (hname : schema.attribute? name = some a) (v : Value) :
    (t.rows.filter fun r => r.get? name = some v)
      = (positionsOf (entries.map (·.value a)) v).map (⟨t, ·⟩) := by
  rw [rows, List.filter_map, positionsOf, List.length_map, ht.size_eq]
  refine congrArg (List.map _) (List.filter_congr ?_)
  intro p hp
  have hget : Row.get? ⟨t, p⟩ name = (entries.map (·.value a))[p]?.join := by
    rw [ht.get?_row, List.getElem?_map]
    cases entries[p]? with
    | none => rfl
    | some e =>
      rw [Option.map_some, Option.join_some, Option.bind_some, Entry.get?, hname, Option.bind_some]
  rw [Function.comp_apply, hget]

/-- The row with an id is the only one that holds it. -/
theorem lookup?_toList (id : Int64) :
    (t.lookup? id).toList
      = (positionsOf (entries.map (·.value .entityId)) (.long id)).map (⟨t, ·⟩) := by
  have hmem (p : Nat) : (entries.map (·.value .entityId))[p]?.join = some (.long id) ↔
      t.positionOf? id = some p := by
    rw [ht.positionOf?_eq_some, List.getElem?_map]
    cases entries[p]? <;> simp
  have hfilter : positionsOf (entries.map (·.value .entityId)) (.long id)
      = (List.range entries.length).filter fun p => t.positionOf? id = some p := by
    rw [positionsOf, List.length_map]
    exact List.filter_congr fun p _ => by simp only [hmem]
  rw [lookup?, hfilter]
  cases hp : t.positionOf? id with
  | none =>
    rw [List.filter_eq_nil_iff.2 fun p _ => by simp]
    rfl
  | some p =>
    have hlt : p < entries.length := ht.size_eq ▸ (ht.positionOf?_eq_some_iff.1 hp).1
    simp only [Option.some_inj, eq_comm (a := p)]
    rw [List.filter_eq, List.count_eq_one_of_mem List.nodup_range (List.mem_range.2 hlt)]
    rfl

/-- There are numbers for the rows of a column. -/
theorem room_values : (entries.map (·.value a)).length ≤ Index.rowNumbers := by
  rw [List.length_map]
  exact ht.room

/-- All ways to the rows that hold a value lead to the same ones. -/
theorem findAt_eq (ha : schema.attributes[i]? = some a) (v : Value) :
    t.findAt i v = (positionsOf (entries.map (·.value a)) v).map (⟨t, ·⟩) := by
  obtain ⟨c, hc, hholds⟩ := ht.exists_columnAt? ha
  -- Rows are found by an index, by searching an id, or by looking through a column.
  cases hindex : t.indexAt? i with
  | some index =>
    obtain ⟨c', hc', rfl⟩ := ht.index_eq i index hindex
    obtain rfl := Option.some_inj.1 (hc.symm.trans hc')
    simp only [findAt, hindex]
    rw [(hholds.lists_index ht.room_values).find_eq]
  | none =>
    cases i with
    | zero =>
      obtain rfl : a = .entityId := (Option.some_inj.1 ha).symm
      simp only [findAt, hindex]
      cases hv : v.long? with
      | some n =>
        obtain rfl := Value.long?_eq_some.1 hv
        rw [Option.bind_some, ht.lookup?_toList]
      | none =>
        have hne (p : Nat) : (entries.map (·.value .entityId))[p]?.join ≠ some v := by
          rw [List.getElem?_map]
          cases entries[p]? <;> simp
          rintro rfl
          simp [Value.long?] at hv
        rw [positionsOf, List.filter_eq_nil_iff.2 fun p _ => by simpa using hne p]
        rfl
    | succ i =>
      simp only [findAt, hindex, hc, Option.map_some, Option.getD_some]
      exact scan_eq hholds (ht.size_eq.trans (List.length_map _).symm) v

theorem find_eq (name : String) (v : Value) :
    t.find name v = t.rows.filter fun r => r.get? name = some v := by
  rw [find, ht.schema_eq]
  cases hi : schema.position? name with
  | some i =>
    obtain ⟨a, ha, hname⟩ := Schema.position?_eq_some.1 hi
    rw [ht.filter_rows hname]
    exact ht.findAt_eq ha v
  | none =>
    refine (List.filter_eq_nil_iff.2 ?_).symm
    intro r hr
    obtain ⟨p, -, rfl⟩ := List.mem_map.1 hr
    rw [Row.get?, column?, ht.schema_eq, hi]
    simp

/-- Under a name without attribute there are no groups. -/
theorem grouped_eq_nil (hname : schema.attribute? name = none) : t.grouped name = [] := by
  rw [grouped, ht.schema_eq, Schema.position?_eq_none.2 hname]

/-- The groups under the name of an attribute are those of its index, or those that are got by going
    through its column. -/
theorem grouped_cases (hname : schema.attribute? name = some a) :
    ∃ c, Entry.HeldBy entries c a ∧
      (t.grouped name = (Index.ofColumn c).groups.map (fun (v, ps) => (v, ps.map (⟨t, ·⟩))) ∨
        t.grouped name = (t.collect c).listing) := by
  obtain ⟨i, hi⟩ : ∃ i, schema.position? name = some i := by
    rw [← Option.ne_none_iff_exists', Ne, Schema.position?_eq_none, hname]
    exact nofun
  obtain ⟨b, hb, hname'⟩ := Schema.position?_eq_some.1 hi
  obtain rfl := Option.some_inj.1 (hname.symm.trans hname')
  obtain ⟨c, hc, hholds⟩ := ht.exists_columnAt? hb
  refine ⟨c, hholds, ?_⟩
  rw [grouped, ht.schema_eq, hi]
  cases hindex : t.indexAt? i with
  | some index =>
    obtain ⟨c', hc', rfl⟩ := ht.index_eq i index hindex
    obtain rfl := Option.some_inj.1 (hc.symm.trans hc')
    exact .inl (by simp only [hindex])
  | none => exact .inr (by simp only [hindex, hc, Option.map_some, Option.getD_some])

/-- The groups are the rows that are found under each value, with an index and without. -/
theorem groups (name : String) : Postings.Groups (t.grouped name) (t.find name) := by
  rcases hname : schema.attribute? name with _ | a
  · have hfind : t.find name = fun _ => [] := by
      funext v
      rw [find, ht.schema_eq, Schema.position?_eq_none.2 hname]
    rw [ht.grouped_eq_nil hname, hfind]
    exact .nil
  · have hfind : t.find name = fun v =>
        (positionsOf (entries.map (·.value a)) v).map (⟨t, ·⟩) := by
      funext v
      rw [ht.find_eq, ht.filter_rows hname]
    obtain ⟨c, hholds, hindex | hcollect⟩ := ht.grouped_cases hname
    · rw [hindex, hfind]
      exact (hholds.lists_index ht.room_values).groups.map (Row.mk t)
    · rw [hcollect, hfind]
      exact groups_collect hholds

/-- The groups are listed by ascending values. -/
theorem ascends_grouped (name : String) : Postings.Ascends (t.grouped name) := by
  rcases hname : schema.attribute? name with _ | a
  · rw [ht.grouped_eq_nil hname]
    exact .nil
  · obtain ⟨c, -, hindex | hcollect⟩ := ht.grouped_cases hname
    · rw [hindex]
      exact (Postings.ascends_groups _).map (Row.mk t)
    · rw [hcollect]
      exact Grouping.ascends_listing _

/-- The positions of the rows that hold a value, by the entries alone. -/
theorem position_find (name : String) (v : Value) :
    (t.find name v).map Row.position = match schema.attribute? name with
      | some a => positionsOf (entries.map (·.value a)) v
      | none => [] := by
  cases hname : schema.attribute? name with
  | none =>
    rw [find, ht.schema_eq, Schema.position?_eq_none.2 hname]
    rfl
  | some a =>
    rw [ht.find_eq, ht.filter_rows hname, List.map_map]
    exact List.map_id _

theorem answersFromRows : t.AnswersFromRows where
  find_eq := ht.find_eq
  findOf_eq := t.findOf_eq
  nodup_grouped name := (ht.groups name).nodup
  mem_grouped name := (ht.groups name).mem_iff
  mem_group name v rs r h := by
    rw [(((ht.groups name).mem_iff v rs).1 h).1, ht.find_eq, List.mem_filter, decide_eq_true_iff]

/-- A table is sound if its rows ascend. -/
theorem sound (hsorted : t.sorted) : t.backing.Sound where
  size_eq := by
    rw [backing, rows, List.length_map, List.length_range]
  ids_eq := by
    rw [backing, rows, List.map_map]
    rfl
  ascending := by
    refine List.pairwise_map.2 (List.pairwise_iff_getElem.2 ?_)
    intro p q hp hq hpq
    rw [List.length_range] at hq
    rw [List.getElem_range, List.getElem_range]
    exact ht.ascend hsorted p q hpq hq
  lookup?_eq_some id r := by
    dsimp only [backing]
    rw [lookup?, rows, Option.map_eq_some_iff, List.mem_map]
    simp only [List.mem_range, ht.positionOf?_eq_some_iff]
    constructor
    · rintro ⟨p, ⟨hp, hid⟩, rfl⟩
      exact ⟨⟨p, hp, rfl⟩, hid⟩
    · rintro ⟨⟨p, hp, rfl⟩, hid⟩
      exact ⟨p, ⟨hp, hid⟩, rfl⟩
  contains_eq id := by
    dsimp only [backing]
    rw [contains, lookup?, Option.isSome_map]
  find_eq := ht.find_eq
  groups := ht.groups

end Holds

end Table

end ColumnStore
