import ColumnStore.Value.Text

/-!
# Errors

What can go wrong, as causes, each with its message: with attributes and schemas
(`SchemaError`), with a write to a segment (`WriteError`), with the layout of columns
(`LayoutError`), and with a collection or its builder (`StoreError`).
-/

namespace ColumnStore

/-- What can be wrong with an attribute, a schema or a value for it. -/
inductive SchemaError where
  /-- The entity id is declared in another place than the first, or with another kind. -/
  | misplacedId
  /-- Two attributes have one name. -/
  | duplicateAttribute (name : String)
  /-- More attributes than a schema can hold. -/
  | tooManyAttributes (count max : Nat)
  /-- A value of another kind than the attribute's. -/
  | wrongKind (name : String) (expected actual : Kind)
  /-- A name that no kind has. -/
  | unknownKind (name : String)
  /-- A text that is no value of the attribute's kind. -/
  | unreadable (name : String) (expected : Kind) (input : String)
deriving DecidableEq

/-- Why a segment refuses a write. `segment` names the encoding of the segment. -/
inductive WriteError where
  /-- The value is not of the kind of the segment. -/
  | wrongKind (value : Value) (segment : String)
  /-- The value needs a wider encoding. -/
  | tooWide (value : Value) (segment : String)
  /-- There is no such slot. -/
  | outOfRange (slot capacity : Nat)
deriving DecidableEq

/-- How a layout can be at odds with itself. -/
inductive LayoutError where
  /-- A segment before the last one is not full. -/
  | partialSegment (index count size : Nat)
  /-- A segment of another kind than the column's. -/
  | foreignSegment (index : Nat)
  /-- The segments do not add up to the size of the column. -/
  | wrongSize (total size : Nat)
  /-- A table needs a column for each attribute. -/
  | columnCount
  /-- The columns of a table have one size. -/
  | raggedColumns
  /-- A position past the end. -/
  | pastEnd (size position : Nat)
deriving DecidableEq

/-- What can go wrong with a collection or its builder. -/
inductive StoreError where
  | write (e : WriteError)
  | schema (e : SchemaError)
  | layout (e : LayoutError)
  /-- The rows do not fit the row numbers. -/
  | rowLimit (needed capacity : Nat)
  /-- An index builder serves once. -/
  | indexAlreadyBuilt
  /-- A row is replaced only while ids ascend. -/
  | replaceUnsorted (id : Int64)
  /-- No attribute has the name. -/
  | noSuchAttribute (name : String)
  /-- The entity has no value for the attribute. -/
  | missingValue (name : String) (id : Int64)
deriving DecidableEq

/-- The message of a schema error. -/
def SchemaError.message : SchemaError → String
  | .misplacedId => "attribute set does not start with the entity id attribute"
  | .duplicateAttribute name => "duplicate attribute " ++ name
  | .tooManyAttributes count max => s!"too many attributes ({count}; at most {max})"
  | .wrongKind name expected actual =>
    "attribute " ++ name ++ " expects " ++ expected.name ++ ", got " ++ actual.name
  | .unknownKind name => "unknown attribute type " ++ Text.quoted name
  | .unreadable name expected input =>
    "cannot parse " ++ Text.quoted input ++ " as " ++ expected.name ++ " for attribute " ++ name

/-- The message of a write error. -/
def WriteError.message : WriteError → String
  | .wrongKind value segment =>
    "cannot store " ++ value.display ++ " (" ++ value.kind.name ++ ") in a " ++ segment ++ " shard"
  | .tooWide value segment =>
    "value " ++ value.display ++ " does not fit a " ++ segment ++ " shard; adapt the shard first"
  | .outOfRange slot capacity => s!"slot {slot} out of range (shard capacity {capacity})"

/-- The message of a layout error. -/
def LayoutError.message : LayoutError → String
  | .partialSegment index count size =>
    s!"shard {index} of {count} holds {size} slots; only the last shard may be partial"
  | .foreignSegment index => s!"shard {index} belongs to another column family"
  | .wrongSize total size => s!"shard sizes sum to {total}, column declares {size}"
  | .columnCount => "one column per attribute"
  | .raggedColumns => "columns must be row-aligned"
  | .pastEnd size position =>
    s!"index out of bounds: the len is {size} but the index is {position}"

/-- The message of a store error. -/
def StoreError.message : StoreError → String
  | .write e => "shard write failed: " ++ e.message
  | .schema e => "schema error: " ++ e.message
  | .layout e => e.message
  | .rowLimit needed capacity => s!"row limit reached ({needed} needed; capacity {capacity})"
  | .indexAlreadyBuilt => "invalid state: entity index builder already built"
  | .replaceUnsorted id =>
    "packed builder cannot replace entity " ++ toString id.toInt
      ++ " once ids arrive out of order"
  | .noSuchAttribute name => "no such attribute: " ++ name
  | .missingValue name id => "entity " ++ toString id.toInt ++ " has no value for " ++ name

end ColumnStore
