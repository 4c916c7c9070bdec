import ColumnStore.Schema

/-!
# Records

An entity on its own: its type, its id, and values for the attributes of its schema, the id
being the first of them.
-/

namespace ColumnStore

/-- The type that entities of a collection have in common. -/
structure EntityType where
  name : String
deriving DecidableEq, Hashable, Inhabited

/-- An entity type in descriptions. -/
def EntityType.display (t : EntityType) : String := "EntityType(" ++ Text.quoted t.name ++ ")"

/-- An entity with all it holds. -/
structure Record where
  entityType : EntityType
  id : Int64
  schema : Schema
  /-- The values of the attributes of the schema, by position. -/
  values : List Value
deriving DecidableEq, Inhabited

namespace Record

/-- The record that holds no more than its id. -/
def idOnly (entityType : EntityType) (id : Int64) : Record := ⟨entityType, id, .idOnly, [.long id]⟩

/-- The value under a name. -/
def get? (r : Record) (name : String) : Option Value :=
  (r.schema.position? name).bind (r.values[·]?)

/-- The attributes with their values. -/
def fields (r : Record) : List (Attribute × Value) := r.schema.attributes.zip r.values

/-- What has been found of the values under the names of a schema. -/
structure Gathering where
  values : Array Value
  /-- The positions of the attributes without a value. -/
  missing : PositionSet := .empty

/-- Looks for a value under the name of one more attribute, which has a position. -/
def Gathering.take (get? : String → Option Value) (g : Gathering) : Attribute × Nat → Gathering
  | (a, i) =>
    match get? a.name with
    | some v => { g with values := g.values.push v }
    | none => { g with missing := g.missing.insert i }

/-- The record of what `get?` holds under the names of a schema: the id in first place, then
    the attributes that have a value. -/
def gather (entityType : EntityType) (id : Int64) (schema : Schema)
    (get? : String → Option Value) : Record :=
  let found := (schema.named.zipIdx 1).foldl (Gathering.take get?) { values := #[.long id] }
  { entityType
    id
    schema := schema.without found.missing
    values := found.values.toList }

end Record

end ColumnStore
