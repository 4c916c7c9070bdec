import ColumnStore.Proofs.Table.Lookup

/-!
# A draft can be peeked at

The table that a draft is peeked at has the rows of the table that it is built to, in another order:
that of their arrival. It answers without any index and looks through ids that do not ascend, and
yet it tells the same of each id and of each value (`Table.SameData`), after any steps
(`run_peek`). As long as the ids have ascended it is the same row by row.
-/

namespace ColumnStore

namespace Postings.Groups

/-- The group of a value is what is found under it. -/
theorem lookup_eq {α : Type} {groups : List (Value × List α)} {found : Value → List α}
    (h : Groups groups found) (v : Value) :
    groups.lookup v = if found v = [] then none else some (found v) := by
  rcases hlookup : groups.lookup v with _ | xs
  · have hnil : found v = [] := by
      by_contra hne
      have := List.lookup_eq_none_iff.1 hlookup _ ((h.mem_iff v _).2 ⟨rfl, hne⟩)
      exact absurd this (by simp)
    rw [if_pos hnil]
  · obtain ⟨before, after, rfl, -⟩ := List.lookup_eq_some_iff.1 hlookup
    obtain ⟨rfl, hne⟩ := (h.mem_iff v xs).1 (List.mem_append_right _ List.mem_cons_self)
    rw [if_neg hne]

end Postings.Groups

namespace Table

/-- Two tables hold the same data, in rows of whatever order: under each id a row that reads the
    same, and under each value rows with the same ids. -/
structure SameData (t t' : Table) : Prop where
  size_eq : t.size = t'.size
  lookup? : ∀ id, Option.Rel (fun r r' : Row => r.id = r'.id ∧ ∀ name, r.get? name = r'.get? name)
    (t.lookup? id) (t'.lookup? id)
  contains_eq : ∀ id, t.contains id = t'.contains id
  contains_idSet_eq : ∀ id, t.idSet.contains id = t'.idSet.contains id
  find_perm : ∀ name v, ((t.find name v).map Row.id).Perm ((t'.find name v).map Row.id)
  findOf_perm : ∀ a v, ((t.findOf a v).map Row.id).Perm ((t'.findOf a v).map Row.id)
  /-- Either a value has a group in both or in none. -/
  lookup_grouped : ∀ name v, Option.Rel (fun rs rs' => (rs.map Row.id).Perm (rs'.map Row.id))
    ((t.grouped name).lookup v) ((t'.grouped name).lookup v)

variable {t t' : Table} {entityType : EntityType} {schema : Schema} {entries entries' : List Entry}

namespace Holds

/-- The ids of the rows that hold a value, by the entries alone. -/
theorem id_find (ht : t.Holds entityType schema entries) (name : String) (v : Value) :
    (t.find name v).map Row.id
      = (entries.filter fun e => e.get? schema name = some v).map Entry.id := by
  have hrows : List.Forall₂
      (fun (r : Row) e => r.id = e.id ∧ ∀ name, r.get? name = e.get? schema name)
      t.rows entries := ht.schema_eq ▸ ht.lists
  rw [ht.find_eq, ← List.forall₂_eq_eq_eq, List.forall₂_map_left_iff, List.forall₂_map_right_iff]
  refine (List.rel_filter ?_ hrows).imp fun _ _ h => h.1
  intro r e hre
  dsimp only
  rw [hre.2 name]

variable (ht : t.Holds entityType schema entries) (ht' : t'.Holds entityType schema entries')
  (hperm : entries.Perm entries')
include ht ht' hperm

/-- What is looked up in the one is found in the other, and reads the same. -/
theorem lookup?_of_perm {id : Int64} {r : Row} (hr : t.lookup? id = some r) :
    ∃ r', t'.lookup? id = some r' ∧ r.id = r'.id ∧ ∀ name, r.get? name = r'.get? name := by
  obtain ⟨p, hp, rfl⟩ := Option.map_eq_some_iff.1 hr
  obtain ⟨e, he, rfl⟩ := ht.positionOf?_eq_some.1 hp
  obtain ⟨q, hq⟩ := List.getElem?_of_mem (hperm.mem_iff.1 (List.mem_of_getElem? he))
  obtain ⟨hid, hget⟩ := ht.row_eq he
  obtain ⟨hid', hget'⟩ := ht'.row_eq hq
  refine ⟨⟨t', q⟩, ?_, hid.trans hid'.symm, fun name => (hget name).trans (hget' name).symm⟩
  exact Option.map_eq_some_iff.2 ⟨q, ht'.positionOf?_eq_some.2 ⟨e, hq, rfl⟩, rfl⟩

theorem find_perm (name : String) (v : Value) :
    ((t.find name v).map Row.id).Perm ((t'.find name v).map Row.id) := by
  rw [ht.id_find, ht'.id_find]
  exact (hperm.filter _).map _

theorem ids_perm : t.idSet.toList.Perm t'.idSet.toList := by
  rw [ht.toList_idSet, ht'.toList_idSet]
  exact hperm.map _

/-- Tables of the same entries hold the same data. -/
theorem sameData : SameData t t' where
  size_eq := by rw [ht.size_eq, ht'.size_eq, hperm.length_eq]
  lookup? id := by
    rcases hr : t.lookup? id with _ | r
    · rcases hr' : t'.lookup? id with _ | r'
      · exact .none
      · obtain ⟨r, hr₂, -⟩ := ht'.lookup?_of_perm ht hperm.symm hr'
        exact absurd (hr.symm.trans hr₂) nofun
    · obtain ⟨r', hr', hsame⟩ := ht.lookup?_of_perm ht' hperm hr
      rw [hr']
      exact .some hsame
  contains_eq id := by
    rw [Bool.eq_iff_iff, ht.findsIds.contains_iff, ht'.findsIds.contains_iff,
      (ht.ids_perm ht' hperm).mem_iff]
  contains_idSet_eq id := by
    rw [Bool.eq_iff_iff, ht.contains_idSet_iff, ht'.contains_idSet_iff,
      (ht.ids_perm ht' hperm).mem_iff]
  find_perm := ht.find_perm ht' hperm
  findOf_perm a v := by
    rw [findOf_eq, findOf_eq, ht.schema_eq, ht'.schema_eq]
    by_cases ha : a ∈ schema.attributes
    · rw [if_pos ha, if_pos ha]
      exact ht.find_perm ht' hperm a.name v
    · rw [if_neg ha, if_neg ha]
  lookup_grouped name v := by
    have hids := ht.find_perm ht' hperm name v
    rw [(ht.groups name).lookup_eq, (ht'.groups name).lookup_eq]
    by_cases hnil : t.find name v = []
    · rw [hnil, List.map_nil, List.nil_perm, List.map_eq_nil_iff] at hids
      rw [if_pos hnil, if_pos hids]
      exact .none
    · have hnil' : t'.find name v ≠ [] := by
        intro hnil'
        rw [hnil', List.map_nil, List.perm_nil, List.map_eq_nil_iff] at hids
        exact hnil hids
      rw [if_neg hnil, if_neg hnil']
      exact .some hids

end Holds

/-- After any steps a new draft can be peeked at. The rows are then those that the calls have
    brought, in the order of their arrival, and they hold the same data as the table that the draft
    is built to, in the same order if the ids have ascended so far. -/
theorem run_peek (entityType : EntityType) (schema : Schema) (settings : Settings)
    (steps : List BuildStep) :
    let (given, d) := run Draft.step steps { entityType, schema, settings }
    ∃ peeked built, d.peek = .ok peeked ∧ d.build = .ok built ∧ peeked.schema = schema ∧
      peeked.Lists (arrivals (BuildStep.calls steps) (given.filterMap id)) ∧
      SameData peeked built ∧
      (d.isSorted → SameAnswers peeked built ∧
        ∀ id, peeked.positionOf? id = built.positionOf? id) := by
  have hd := Draft.run_arrivals entityType schema settings steps
  dsimp only at hd ⊢
  obtain ⟨peeked, hpeek, hpeeked, -, -⟩ := hd.peek
  obtain ⟨built, entries, hbuild, hbuilt, hsorted, hperm⟩ := hd.build
  refine ⟨peeked, built, hpeek, hbuild, hpeeked.schema_eq, hpeeked.lists,
    hpeeked.sameData hbuilt hperm.symm, ?_⟩
  intro hascend
  -- Entries in ascending order have been built as they are.
  rw [Entry.eq_of_perm hperm (hbuilt.ascending hsorted) (hd.pairwise_of_isSorted hascend)] at hbuilt
  exact ⟨hpeeked.sameAnswers hbuilt, hpeeked.positionOf?_congr hbuilt⟩

end Table

end ColumnStore
