import ColumnStore.AddOutcome
import ColumnStore.Entity
import ColumnStore.Grouping
import ColumnStore.RecordIndex
import Std.Data.TreeMap

/-!
# Catalogs

A catalog holds whole records, in ascending order of their ids. It has no schema: each record
brings its own, and the type that it was made with.
-/

namespace ColumnStore

/-- Records by id. -/
structure Catalog where
  entityType : EntityType
  /-- The records in ascending order of their ids. -/
  members : Array Record
  /-- Where the record with each id is. -/
  positions : Std.TreeMap Int64 Nat
  /-- The indexes of the values of any kind under a name. -/
  indexes : List RecordIndex
  /-- The indexes of the values of one kind. -/
  kindIndexes : List RecordIndex

namespace Catalog

variable (c : Catalog)

/-- The number of records. -/
def size : Nat := c.members.size

/-- The ids in ascending order. -/
def ids : List Int64 := c.members.toList.map Record.id

/-- The record with an id. -/
def lookup? (id : Int64) : Option Record := c.positions[id]?.bind (c.members[·]?)

/-- Some record has the id. -/
def contains (id : Int64) : Bool := c.positions.contains id

/-- The attributes whose values ascend with the records. -/
def sortKeys (_ : Catalog) : List Attribute := [.entityId]

/-- The index of the values of any kind under a name. -/
def index? (name : String) : Option RecordIndex := c.indexes.find? (·.name = name)

/-- The index of the values of an attribute. -/
def indexOf? (a : Attribute) : Option RecordIndex :=
  c.kindIndexes.find? fun i => i.name = a.name ∧ i.kind? = some a.kind

/-- The records that hold a value under a name. -/
def find (name : String) (v : Value) : List Record :=
  match c.index? name with
  | some i => i.find v
  | none => c.members.toList.filter fun r => r.get? name = some v

/-- The records that hold a value of an attribute's kind under its name. -/
def findOf (a : Attribute) (v : Value) : List Record :=
  if a.kind.accepts v then
    match c.indexOf? a with
    | some i => i.find v
    | none => c.find a.name v
  else []

/-- The values under a name with the records that hold each, the values ascending: from the index of
    the name where there is one, and else by going through the records. -/
def grouped (name : String) : List (Value × List Record) :=
  match c.index? name with
  | some i => i.postings.groups
  | none => (Grouping.ofItems (c.members.toList.map fun r => (r.get? name, r))).listing

/-- A catalog in the making. -/
structure Draft where
  entityType : EntityType
  /-- The records, each under the id of the entity that it was made of. -/
  members : Std.TreeMap Int64 Record := ∅
  /-- The names that will have an index of values of any kind. -/
  names : List String := []
  /-- The attributes that will have an index, no two of one name. -/
  attributes : List Attribute := []

namespace Draft

/-- The number of records. -/
def size (d : Draft) : Nat := d.members.size

/-- Asks for an index of the values of any kind under a name. -/
def addIndex (d : Draft) (name : String) : Draft :=
  if name ∈ d.names then d else { d with names := d.names ++ [name] }

/-- Asks for an index of the values of an attribute, in the place of one that was asked for
    under the same name. -/
def addIndexOf (d : Draft) (a : Attribute) : Draft :=
  { d with attributes := d.attributes.filter (·.name ≠ a.name) ++ [a] }

/-- Adds a record of an entity. -/
def add [Entity ε] (d : Draft) (e : ε) (replace : Bool) : AddOutcome × Draft :=
  let id := Entity.id e
  if d.members.contains id then
    if replace then (.replaced, { d with members := d.members.insert id (Entity.toRecord e) })
    else (.dropped, d)
  else (.added, { d with members := d.members.insert id (Entity.toRecord e) })

/-- The records in ascending order of their ids. -/
def records (d : Draft) : List Record :=
  (d.members.toList.map Prod.snd).mergeSort fun r s => r.id ≤ s.id

/-- The catalog of the draft. -/
def build (d : Draft) : Catalog where
  entityType := d.entityType
  members := d.records.toArray
  positions := .ofList (d.records.map Record.id).zipIdx
  indexes := d.names.map fun name => .ofRecords name none d.records
  kindIndexes := d.attributes.map fun a => .ofRecords a.name (some a.kind) d.records

end Draft

end Catalog

end ColumnStore
