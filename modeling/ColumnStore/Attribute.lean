import ColumnStore.Error

/-!
# Attributes

An attribute has a name and a kind, and takes values of that kind only. The attribute of the
entity id is the long named `id`.
-/

namespace ColumnStore

/-- A name with the kind of the values it stands for. -/
@[ext]
structure Attribute where
  name : String
  kind : Kind
deriving DecidableEq, Hashable, Inhabited

namespace Attribute

/-- The name that is kept for the entity id. -/
def idName : String := "id"

/-- The attribute of the entity id. -/
def entityId : Attribute := ⟨idName, .long⟩

/-- The attribute with the kind of the given name. -/
def ofKindName (name kind : String) : Except SchemaError Attribute :=
  match Kind.ofName? kind with
  | some k => .ok ⟨name, k⟩
  | none => .error (.unknownKind kind)

/-- The attribute is that of the entity id. -/
def isEntityId (a : Attribute) : Bool := a = entityId

/-- Refuses a value of another kind. -/
def check (a : Attribute) (v : Value) : Except SchemaError Unit :=
  if a.kind.accepts v then .ok () else .error (.wrongKind a.name a.kind v.kind)

/-- Reads a value for the attribute. -/
def readValue (a : Attribute) (input : String) : Except SchemaError Value :=
  match Value.read? a.kind input with
  | some v => .ok v
  | none => .error (.unreadable a.name a.kind input)

/-- An attribute in descriptions. -/
def display (a : Attribute) : String := "TypedName[" ++ a.name ++ ": " ++ a.kind.name ++ "]"

/-! ## Usual attributes -/

/-- The user of a rating. -/
def user : Attribute := ⟨"user", .long⟩

/-- The rated item. -/
def item : Attribute := ⟨"item", .long⟩

/-- The rating itself. -/
def rating : Attribute := ⟨"rating", .double⟩

/-- The time of a rating. -/
def timestamp : Attribute := ⟨"timestamp", .long⟩

/-- The name of an entity. -/
def title : Attribute := ⟨"name", .text⟩

/-- How often something occurred. -/
def count : Attribute := ⟨"count", .int⟩

end Attribute

end ColumnStore
