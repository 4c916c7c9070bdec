import ColumnStore.Proofs.Table.Arrivals

/-!
# Rows are found by their ids

The ids of a table are searched while its rows ascend, and looked through where they do not. Either
way each row is found by its id, and no other row is (`Table.FindsIds`), in a table that was built
as in one that was peeked at, after any steps (`run_findsIds`).
-/

namespace ColumnStore.Table

/-- A table finds each of its rows by the id of the row, and under no other id. -/
structure FindsIds (t : Table) : Prop where
  toList_idSet : t.idSet.toList = t.rows.map Row.id
  /-- No two rows have one id. -/
  nodup : t.idSet.toList.Nodup
  /-- Rows that are said to be in order are. -/
  ascending : t.sorted → t.idSet.toList.Pairwise (· < ·)
  positionOf?_eq_some : ∀ id p, t.positionOf? id = some p ↔ ∃ r, t.row? p = some r ∧ r.id = id
  lookup?_eq : ∀ id, t.lookup? id = (t.positionOf? id).bind t.row?
  get?_id : ∀ r ∈ t.rows, r.get? Attribute.idName = some (.long r.id)
  contains_iff : ∀ id, t.contains id ↔ id ∈ t.idSet.toList
  contains_idSet_iff : ∀ id, t.idSet.contains id ↔ id ∈ t.idSet.toList
  find_id : ∀ id, t.find Attribute.idName (.long id) = (t.lookup? id).toList

variable {t : Table} {entityType : EntityType} {schema : Schema} {entries : List Entry}
  {id : Int64} {p : Nat}

namespace Holds

variable (ht : t.Holds entityType schema entries)
include ht

theorem toList_idSet : t.idSet.toList = entries.map Entry.id := by
  refine List.ext_getElem ?_ fun p hp hp' => ?_
  · rw [IdSet.toList, List.length_map, List.length_range, List.length_map]
    exact ht.size_eq
  · rw [List.length_map] at hp'
    have hid : t.idSet.idAt p = t.idAt p := rfl
    simp only [IdSet.toList, List.getElem_map, List.getElem_range, hid, ht.idAt_eq,
      List.getElem?_eq_getElem hp', Option.map_some, Option.getD_some]

/-- The positions of ids are told by the entries alone. -/
theorem positionOf?_congr {t' : Table} {entityType' : EntityType}
    (ht' : t'.Holds entityType' schema entries) (id : Int64) :
    t.positionOf? id = t'.positionOf? id :=
  Option.ext fun p => by rw [ht.positionOf?_eq_some, ht'.positionOf?_eq_some]

/-- Ids are in the set of those of the rows, whether it is searched or looked through. -/
theorem contains_idSet_iff : t.idSet.contains id ↔ id ∈ t.idSet.toList := by
  by_cases hsorted : t.sorted
  · have hsearch : t.idSet.contains id = (t.positionOf? id).isSome := by
      rw [IdSet.contains, positionOf?, IdSet.position?]
      exact (if_pos hsorted).trans (congrArg Option.isSome (if_pos hsorted)).symm
    rw [hsearch, ← contains, ht.contains_iff, ht.toList_idSet, List.mem_map]
  · have hany : t.idSet.contains id
        = (List.range t.size).any fun row => t.ids.getInteger? row = some id := if_neg hsorted
    rw [hany, List.any_eq_true, ht.toList_idSet, List.mem_iff_getElem?]
    simp only [decide_eq_true_eq, ht.getInteger?_ids, List.getElem?_map, List.mem_range, ht.size_eq]
    refine exists_congr fun row => and_iff_right_of_imp ?_
    intro h
    obtain ⟨e, he, -⟩ := Option.map_eq_some_iff.1 h
    exact (List.getElem?_eq_some_iff.1 he).1

theorem lookup?_eq (id : Int64) : t.lookup? id = (t.positionOf? id).bind t.row? := by
  rw [lookup?]
  cases hp : t.positionOf? id with
  | none => rfl
  | some p =>
    rw [Option.map_some, Option.bind_some, row?, if_pos (ht.positionOf?_eq_some_iff.1 hp).1]

/-- The rows that hold an id are the one that is looked up. -/
theorem find_id (id : Int64) :
    t.find Attribute.idName (.long id) = (t.lookup? id).toList := by
  rw [ht.find_eq, ht.filter_rows Schema.attribute?_idName, ht.lookup?_toList]

theorem findsIds : t.FindsIds where
  toList_idSet := by
    rw [rows, List.map_map]
    rfl
  nodup := ht.toList_idSet ▸ ht.nodup
  ascending hsorted := ht.toList_idSet ▸ ht.ascending hsorted
  positionOf?_eq_some id p := by
    rw [ht.positionOf?_eq_some_iff, row?]
    by_cases hp : p < t.size
    · rw [if_pos hp]
      refine ⟨fun h => ⟨_, rfl, h.2⟩, ?_⟩
      rintro ⟨r, hr, rfl⟩
      obtain rfl := Option.some_inj.1 hr
      exact ⟨hp, rfl⟩
    · rw [if_neg hp]
      refine iff_of_false (fun h => hp h.1) ?_
      rintro ⟨r, hr, -⟩
      exact absurd hr (Option.some_ne_none r).symm
  lookup?_eq := ht.lookup?_eq
  get?_id r hr := by
    obtain ⟨p, hp, rfl⟩ := List.mem_map.1 hr
    rw [List.mem_range, ht.size_eq] at hp
    obtain ⟨hid, hget⟩ := ht.row_eq (List.getElem?_eq_getElem hp)
    rw [hget, hid, Entry.get?, Schema.attribute?_idName, Option.bind_some, Entry.value_entityId]
  contains_iff id := by
    rw [ht.contains_iff, ht.toList_idSet, List.mem_map]
  contains_idSet_iff _ := ht.contains_idSet_iff
  find_id := ht.find_id

end Holds

/-- After any steps on a new draft, the table that it is built to and the one that is peeked at find
    their rows by id. The rows of the former are in order, those of the latter if the draft says
    so. -/
theorem run_findsIds (entityType : EntityType) (schema : Schema) (settings : Settings)
    (steps : List BuildStep) :
    let d := (run Draft.step steps { entityType, schema, settings }).2
    ∃ built peeked, d.build = .ok built ∧ d.peek = .ok peeked ∧ built.FindsIds ∧ peeked.FindsIds ∧
      built.sorted = true ∧ peeked.sorted = d.isSorted := by
  have hd := Draft.run_arrivals entityType schema settings steps
  obtain ⟨built, sorted, hbuild, hbuilt, hsorted, -⟩ := hd.build
  obtain ⟨peeked, hpeek, hpeeked, hsorted', -⟩ := hd.peek
  exact ⟨built, peeked, hbuild, hpeek, hbuilt.findsIds, hpeeked.findsIds, hsorted, hsorted'⟩

end ColumnStore.Table
