import ColumnStore.Proofs.Run
import ColumnStore.Proofs.Table.Row
import ColumnStore.Table.Subsets

/-!
# What is kept of schemas is right

Whatever rows have been asked before, what is kept of a schema by the positions that are missing is
the schema without them, and never more is kept than the limit allows (`Subsets.Sound`). So a row
lists the same schema as if nothing was kept at all (`Row.listed_eq`).
-/

namespace ColumnStore

namespace Subsets

variable {subsets : Subsets} {limit : Nat} {schema : Schema}

/-- What is kept of the schema is what it is without the positions, and within the limit. -/
structure Sound (subsets : Subsets) (limit : Nat) (schema : Schema) : Prop where
  eq_without : ∀ missing part, subsets.kept[missing]? = some part → part = schema.without missing
  size_le : subsets.kept.size ≤ limit

theorem sound_empty (limit : Nat) (schema : Schema) : Sound {} limit schema where
  eq_without missing part h := by
    rw [Std.HashMap.getElem?_empty] at h
    cases h
  size_le := Nat.zero_le _

namespace Sound

variable (h : subsets.Sound limit schema) (missing : PositionSet)
include h

/-- What is looked up is right. -/
theorem without_eq : (subsets.without limit schema missing).1 = schema.without missing := by
  rw [without]
  by_cases hempty : missing.isEmpty
  · rw [if_pos hempty, schema.without_of_isEmpty hempty]
  · rw [if_neg hempty]
    cases hkept : subsets.kept[missing]? with
    | some part => exact h.eq_without missing part hkept
    | none =>
      dsimp only
      split <;> rfl

/-- What is kept for further rows is right, too. -/
theorem without : (subsets.without limit schema missing).2.Sound limit schema := by
  rw [Subsets.without]
  by_cases hempty : missing.isEmpty
  · rwa [if_pos hempty]
  · rw [if_neg hempty]
    cases hkept : subsets.kept[missing]? with
    | some part => exact h
    | none =>
      dsimp only
      split
      · rename_i hroom
        refine ⟨fun missing' part hpart => ?_, ?_⟩
        · dsimp only at hpart
          rw [Std.HashMap.getElem?_insert] at hpart
          split at hpart
          · rename_i heq
            rw [← eq_of_beq heq]
            exact (Option.some_inj.1 hpart).symm
          · exact h.eq_without missing' part hpart
        · exact Nat.le_trans (Std.HashMap.size_insert_le ..) hroom
      · exact h

end Sound

end Subsets

namespace Row

variable {t : Table} {subsets : Subsets}

/-- A row lists what it lacks no value for, and what is kept stays right. -/
theorem listed_spec (h : subsets.Sound t.settings.subsetLimit t.schema) (p : Nat) :
    (listed ⟨t, p⟩ subsets).1 = Entity.schema (⟨t, p⟩ : Row) ∧
      (listed ⟨t, p⟩ subsets).2.Sound t.settings.subsetLimit t.schema :=
  ⟨h.without_eq _, h.without _⟩

/-- Whatever rows of a table have been asked before, a row lists what it lacks no value for. -/
theorem listed_eq (asked : List Nat) (p : Nat) :
    (listed ⟨t, p⟩ (run (fun p => listed ⟨t, p⟩) asked {}).2).1 = Entity.schema (⟨t, p⟩ : Row) := by
  have hsound := run_keeps (f := fun p => listed ⟨t, p⟩)
    (P := fun subsets => subsets.Sound t.settings.subsetLimit t.schema)
    (fun p _ h => (listed_spec h p).2) asked (Subsets.sound_empty _ _)
  exact (listed_spec hsound p).1

/-- Rows of a table list one after the other what each of them lists alone. -/
theorem foldl_listNext {rows : List Row} (hrows : ∀ r ∈ rows, r.table = t)
    (schemas : Array Schema) (h : subsets.Sound t.settings.subsetLimit t.schema) :
    (rows.foldl listNext (schemas, subsets)).1.toList
      = schemas.toList ++ rows.map Entity.schema := by
  induction rows generalizing schemas subsets with
  | nil => rw [List.foldl_nil, List.map_nil, List.append_nil]
  | cons r rest ih =>
    obtain ⟨rfl, hrest⟩ := List.forall_mem_cons.1 hrows
    obtain ⟨hlisted, hsound⟩ := listed_spec h r.position
    rw [List.foldl_cons, listNext]
    dsimp only
    rw [ih hrest _ hsound, hlisted, Array.toList_push, List.append_assoc, List.map_cons,
      List.singleton_append]

end Row

theorem Table.listedSchemas_eq (t : Table) : t.listedSchemas = t.rows.map Entity.schema := by
  refine Row.foldl_listNext (t := t) (fun r hr => ?_) #[] (Subsets.sound_empty _ _)
  obtain ⟨p, -, rfl⟩ := List.mem_map.1 hr
  rfl

end ColumnStore
