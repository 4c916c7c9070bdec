import ColumnStore.Record.Basic

/-!
# Entities

What all entities answer, whether they are records, rows of a table or anything else with a
type, an id, a schema and values by name. All further answers follow from these four, though
a kind of entity may have answers of its own.
-/

namespace ColumnStore

namespace Entity

/-- The long that an entity holds under a name, given what it holds there. -/
def expectLong (id : Int64) (name : String) : Option Value → Except StoreError Int64
  | some (.long n) => .ok n
  | some v => .error (.schema (.wrongKind name .long v.kind))
  | none => .error (.missingValue name id)

/-- The double that an entity holds under a name, given what it holds there. -/
def expectDouble (id : Int64) (name : String) : Option Value → Except StoreError Double
  | some (.double x) => .ok x
  | some v => .error (.schema (.wrongKind name .double v.kind))
  | none => .error (.missingValue name id)

/-- The attributes of a schema that have a value, with it. -/
def presentFields (schema : Schema) (get? : String → Option Value) : List (Attribute × Value) :=
  schema.attributes.filterMap fun a => (get? a.name).map (a, ·)

end Entity

/-- The types whose members are entities. -/
class Entity (ε : Type) where
  entityType : ε → EntityType
  id : ε → Int64
  /-- The attributes that the entity lists. -/
  schema : ε → Schema
  /-- The value under a name. -/
  get? : ε → String → Option Value
  /-- There is a value under the name. -/
  has : ε → String → Bool := fun e name => (get? e name).isSome
  /-- The value of an attribute, if it is of the attribute's kind. -/
  getOf? : ε → Attribute → Option Value := fun e a => (get? e a.name).filter a.kind.accepts
  /-- The long under a name. -/
  long : ε → String → Except StoreError Int64 :=
    fun e name => Entity.expectLong (id e) name (get? e name)
  /-- The double under a name. -/
  double : ε → String → Except StoreError Double :=
    fun e name => Entity.expectDouble (id e) name (get? e name)
  /-- The listed attributes that have a value, with it. -/
  fields : ε → List (Attribute × Value) := fun e => Entity.presentFields (schema e) (get? e)
  /-- A record of all that the entity holds under the names it lists. -/
  toRecord : ε → Record := fun e => .gather (entityType e) (id e) (schema e) (get? e)

/-- A record is its own copy, and its fields are at hand. -/
instance : Entity Record where
  entityType := Record.entityType
  id := Record.id
  schema := Record.schema
  get? := Record.get?
  fields := Record.fields
  toRecord r := r

/-- An entity given by no more than what every entity has to tell. Nothing binds the values to
    the schema: a listed attribute may have no value, or one of another kind. -/
structure Described where
  entityType : EntityType
  id : Int64
  schema : Schema
  get? : String → Option Value

instance : Entity Described where
  entityType := Described.entityType
  id := Described.id
  schema := Described.schema
  get? := Described.get?

end ColumnStore
