import ColumnStore.Table.Query
import Std.Data.HashMap

/-!
# Subsets of a schema

Rows list the attributes that they have a value for, and many rows lack the same values. So the
schema of what is left is kept for the rows to come, as long as there are not too many of them.
-/

namespace ColumnStore

/-- What is left of a schema for rows, by the positions that they lack a value for. -/
structure Subsets where
  kept : Std.HashMap PositionSet Schema := ∅

namespace Subsets

/-- The schema without the attributes at the given positions, which is taken from what is kept if
    it is there, and is kept otherwise if `limit` allows for one more. -/
def without (subsets : Subsets) (limit : Nat) (schema : Schema) (missing : PositionSet) :
    Schema × Subsets :=
  if missing.isEmpty then (schema, subsets)
  else
    match subsets.kept[missing]? with
    | some part => (part, subsets)
    | none =>
      let part := schema.without missing
      if subsets.kept.size < limit then (part, ⟨subsets.kept.insert missing part⟩)
      else (part, subsets)

end Subsets

/-- The schema that a row lists, looked up in what its table keeps. -/
def Row.listed (r : Row) (subsets : Subsets) : Schema × Subsets :=
  subsets.without r.table.settings.subsetLimit r.table.schema r.absent

/-- Puts the schema that one more row lists to those of rows before it. -/
def Row.listNext : Array Schema × Subsets → Row → Array Schema × Subsets
  | (schemas, subsets), r =>
    let (schema, subsets) := r.listed subsets
    (schemas.push schema, subsets)

/-- The schemas that the rows list, one after the other. -/
def Table.listedSchemas (t : Table) : List Schema :=
  (t.rows.foldl Row.listNext (#[], {})).1.toList

end ColumnStore
