import ColumnStore.Catalog
import ColumnStore.Roster
import ColumnStore.Table.Draft
import ColumnStore.Table.Query

/-!
# Collections

A collection is backed by a table, a catalog or a roster, whichever suits what is known of its
entities beforehand: with a schema of more than the id they are rows of a table, with the id
alone a roster is enough, and without a schema they are kept as records.
-/

namespace ColumnStore

/-- An entity as a collection hands it out. -/
inductive Member where
  /-- A row of a table. -/
  | row (r : Row)
  /-- A record that a catalog keeps. -/
  | kept (r : Record)
  /-- A record that a roster makes for an id. -/
  | made (r : Record)

/-- A member answers as the entity in it does. -/
instance : Entity Member where
  entityType
    | .row r => Entity.entityType r
    | .kept r | .made r => Entity.entityType r
  id
    | .row r => Entity.id r
    | .kept r | .made r => Entity.id r
  schema
    | .row r => Entity.schema r
    | .kept r | .made r => Entity.schema r
  get?
    | .row r => Entity.get? r
    | .kept r | .made r => Entity.get? r
  has
    | .row r => Entity.has r
    | .kept r | .made r => Entity.has r
  getOf?
    | .row r => Entity.getOf? r
    | .kept r | .made r => Entity.getOf? r
  long
    | .row r => Entity.long r
    | .kept r | .made r => Entity.long r
  double
    | .row r => Entity.double r
    | .kept r | .made r => Entity.double r
  fields
    | .row r => Entity.fields r
    | .kept r | .made r => Entity.fields r
  toRecord
    | .row r => Entity.toRecord r
    | .kept r | .made r => Entity.toRecord r

/-- Entities of one type, over one of the backings. -/
inductive Collection where
  | table (t : Table)
  | catalog (c : Catalog)
  | roster (r : Roster)

namespace Collection

/-- The type that the collection was made for. -/
def entityType : Collection → EntityType
  | .table t => t.entityType
  | .catalog c => c.entityType
  | .roster r => r.entityType

/-- The number of entities. -/
def size : Collection → Nat
  | .table t => t.size
  | .catalog c => c.size
  | .roster r => r.size

/-- The entity with an id. -/
def lookup? (c : Collection) (id : Int64) : Option Member :=
  match c with
  | .table t => (t.lookup? id).map .row
  | .catalog c => (c.lookup? id).map .kept
  | .roster r => (r.lookup? id).map .made

/-- Some entity has the id. -/
def contains (c : Collection) (id : Int64) : Bool :=
  match c with
  | .table t => t.contains id
  | .catalog c => c.contains id
  | .roster r => r.contains id

/-- The entities that hold a value under a name. -/
def find (c : Collection) (name : String) (v : Value) : List Member :=
  match c with
  | .table t => (t.find name v).map .row
  | .catalog c => (c.find name v).map .kept
  | .roster r => (r.find name v).map .made

/-- The values under a name with the entities that hold each, the values ascending. -/
def grouped (c : Collection) (name : String) : List (Value × List Member) :=
  match c with
  | .table t => (t.grouped name).map fun (v, rows) => (v, rows.map .row)
  | .catalog c => (c.grouped name).map fun (v, rs) => (v, rs.map .kept)
  | .roster r => (r.grouped name).map fun (v, rs) => (v, rs.map .made)

/-- All entities in order. -/
def members : Collection → List Member
  | .table t => t.rows.map .row
  | .catalog c => c.members.toList.map .kept
  | .roster r => r.members.map .made

/-- The ids of all entities in order. -/
def ids : Collection → List Int64
  | .table t => t.idSet.toList
  | .catalog c => c.ids
  | .roster r => r.ids.toList

/-- The attributes whose values ascend with the entities. -/
def sortKeys : Collection → List Attribute
  | .table t => t.sortKeys
  | .catalog c => c.sortKeys
  | .roster _ => [.entityId]

/-- The table that backs the collection, if one does. -/
def table? : Collection → Option Table
  | .table t => some t
  | _ => none

/-- A collection in the making. -/
inductive Draft where
  | table (d : Table.Draft)
  | catalog (d : Catalog.Draft)
  | roster (d : Roster.Draft)

namespace Draft

/-- A draft for entities of which nothing is known beforehand. -/
def ofType (entityType : EntityType) : Draft := .catalog { entityType }

/-- A draft for entities with the attributes of a schema. -/
def ofSchema (entityType : EntityType) (schema : Schema) : Draft :=
  if schema.size = 1 then .roster { entityType } else .table { entityType, schema }

/-- The draft with other settings, which matter to a table only. -/
def withSettings (settings : Table.Settings) : Draft → Draft
  | .table d => .table (d.withSettings settings)
  | d => d

/-- Asks for an index of the values under a name; a roster has none. -/
def addIndex (name : String) : Draft → Draft
  | .table d => .table (d.addIndex name)
  | .catalog d => .catalog (d.addIndex name)
  | .roster d => .roster d

/-- The number of entities. -/
def size : Draft → Nat
  | .table d => d.size
  | .catalog d => d.size
  | .roster d => d.size

/-- Adds an entity. -/
def add [Entity ε] (d : Draft) (e : ε) (replace : Bool) : Except StoreError AddOutcome × Draft :=
  match d with
  | .table d => let (outcome, d) := d.add e replace; (outcome, .table d)
  | .catalog d => let (outcome, d) := d.add e replace; (.ok outcome, .catalog d)
  | .roster d => let (outcome, d) := d.add e replace; (.ok outcome, .roster d)

/-- Adds entities in turn, without replacing any, up to the first that is refused. -/
def addAll [Entity ε] (d : Draft) : List ε → Except StoreError Unit × Draft
  | [] => (.ok (), d)
  | e :: rest =>
    match d.add e false with
    | (.ok _, d) => d.addAll rest
    | (.error err, d) => (.error err, d)

/-- The collection of the draft. -/
def build : Draft → Except StoreError Collection
  | .table d => d.build.map .table
  | .catalog d => .ok (.catalog d.build)
  | .roster d => .ok (.roster d.build)

end Draft

end Collection

end ColumnStore
