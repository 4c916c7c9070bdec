import ColumnStore.Record.Basic

/-!
# Drafts of records

A record in the making: an id and, in the order in which their names were first set, the
attributes with their values. A refused value leaves the draft as it was.
-/

namespace ColumnStore

/-- A record in the making. -/
structure Record.Draft where
  entityType : EntityType
  id : Int64
  /-- The attributes besides the id, with their values. -/
  fields : List (Attribute × Value) := []
deriving DecidableEq

namespace Record.Draft

variable (d : Draft)

/-- Sets an attribute. The attribute replaces one of the same name in its place, with its kind;
    the id is set by a long only. -/
def put (a : Attribute) (v : Value) : Except SchemaError Unit × Draft :=
  match a.check v with
  | .error e => (.error e, d)
  | .ok () =>
    if a.name = Attribute.idName then
      match v, a.isEntityId with
      | .long id, true => (.ok (), { d with id })
      | v, _ => (.error (.wrongKind Attribute.idName .long v.kind), d)
    else
      match d.fields.findIdx? (·.1.name = a.name) with
      | some i => (.ok (), { d with fields := d.fields.set i (a, v) })
      | none => (.ok (), { d with fields := d.fields ++ [(a, v)] })

/-- The draft with an attribute set. -/
def set (a : Attribute) (v : Value) : Except SchemaError Draft :=
  match d.put a v with
  | (.ok (), d) => .ok d
  | (.error e, _) => .error e

/-- The draft without the attribute of the given name; the id stays. -/
def clear (name : String) : Draft := { d with fields := d.fields.filter (·.1.name ≠ name) }

/-- The record of the draft, if its attributes make a schema. -/
def build : Except SchemaError Record :=
  (Schema.create (d.fields.map Prod.fst)).map fun schema =>
    { entityType := d.entityType
      id := d.id
      schema
      values := .long d.id :: d.fields.map Prod.snd }

end Record.Draft

end ColumnStore
