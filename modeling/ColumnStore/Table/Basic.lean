import ColumnStore.Column.Basic
import ColumnStore.Index
import ColumnStore.Record.Basic
import ColumnStore.Search

/-!
# Tables

A table holds entities of one type as rows: a column of ids and a column for each further
attribute of its schema, all of one size. Rows in ascending order of their ids are searched;
other rows are looked through.
-/

namespace ColumnStore

/-- How a table may be built. Neither setting changes an answer of the table. -/
structure Table.Settings where
  /-- Indexes may be built side by side. -/
  parallelIndexing : Bool := true
  /-- How many subsets of the schema may be kept for further rows that lack the same values. -/
  subsetLimit : Nat := 64
deriving DecidableEq, Inhabited

/-- The settings that build one index after the other. -/
def Table.Settings.sequential : Settings := { parallelIndexing := false }

/-- Entities of one type, as rows over columns. -/
structure Table where
  entityType : EntityType
  schema : Schema
  /-- The ids of the rows. -/
  ids : Column
  /-- The columns of the attributes after the id. -/
  columns : Array Column
  /-- The indexes of the attributes that have one, by position. -/
  indexes : Array (Option Index)
  /-- The ids ascend. -/
  sorted : Bool
  settings : Table.Settings := {}

/-- The ids of a table, which ascend or not. -/
structure IdSet where
  ids : Column
  sorted : Bool

namespace IdSet

/-- The number of ids. -/
def size (s : IdSet) : Nat := s.ids.size

/-- The id in a row. -/
def idAt (s : IdSet) (row : Nat) : Int64 := (s.ids.getInteger? row).getD 0

/-- The row that has an id. -/
def position? (s : IdSet) (id : Int64) : Option Nat :=
  if s.sorted then (search s.size id s.idAt).position?
  else (List.range s.size).find? fun row => s.idAt row = id

/-- Some row has the id. Ids out of order are looked through, where a row without one is passed
    over. -/
def contains (s : IdSet) (id : Int64) : Bool :=
  if s.sorted then (search s.size id s.idAt).position?.isSome
  else (List.range s.size).any fun row => s.ids.getInteger? row = some id

/-- The ids by row. -/
def toList (s : IdSet) : List Int64 := (List.range s.size).map s.idAt

end IdSet

namespace Table

/-- The table of the given columns, if there is one for each attribute and all have the size
    of the column of ids. -/
def ofColumns (entityType : EntityType) (schema : Schema) (ids : Column) (columns : Array Column)
    (indexes : Array (Option Index)) (sorted : Bool) (settings : Settings) :
    Except LayoutError Table :=
  if columns.size + 1 ≠ schema.size then .error .columnCount
  else if columns.any (·.size ≠ ids.size) then .error .raggedColumns
  else .ok { entityType, schema, ids, columns, indexes, sorted, settings }

variable (t : Table)

/-- The number of rows. -/
def size : Nat := t.ids.size

/-- The ids of the rows. -/
def idSet : IdSet := ⟨t.ids, t.sorted⟩

/-- The id of a row. -/
def idAt (row : Nat) : Int64 := t.idSet.idAt row

/-- The column of the attribute at a position of the schema. -/
def columnAt? : Nat → Option Column
  | 0 => some t.ids
  | i + 1 => t.columns[i]?

/-- All columns, by position. -/
def allColumns : List Column := t.ids :: t.columns.toList

/-- The column of the attribute with the given name. -/
def column? (name : String) : Option Column := (t.schema.position? name).bind t.columnAt?

/-- The index of the attribute at a position, if it has one. -/
def indexAt? (i : Nat) : Option Index := t.indexes.getD i none

/-- The attribute with the given name has an index. -/
def isIndexed (name : String) : Bool := ((t.schema.position? name).bind t.indexAt?).isSome

/-- The attributes whose values ascend with the rows. -/
def sortKeys : List Attribute := if t.sorted then [.entityId] else []

end Table

end ColumnStore
