import ColumnStore.Schema
import Std.Data.HashMap

/-!
# Directories

A directory lists attributes in order, the id first, and keeps the position of each name in a table
of its own, so that no name has to be looked for in the list. List and table are filled together,
attribute by attribute, and both are made anew for a part of the attributes.
-/

namespace ColumnStore

/-- Attributes by position, and positions by name. -/
structure Directory where
  attributes : Array Attribute := #[]
  positions : Std.HashMap String Nat := ∅

namespace Directory

variable (d : Directory)

/-- The directory with one more attribute at the end. -/
def push (a : Attribute) : Directory :=
  ⟨d.attributes.push a, d.positions.insert a.name d.attributes.size⟩

/-- The directory of the id alone. -/
def idOnly : Directory := push {} .entityId

/-- Enters the attribute at a position of a list. The id is there already, and may lead the list. -/
def enter : Attribute × Nat → Except SchemaError Directory
  | (a, i) =>
    -- The id is no repeated name, but one out of place.
    if a.name = Attribute.idName then
      if i = 0 && a.isEntityId then .ok d else .error .misplacedId
    else if d.positions.contains a.name then .error (.duplicateAttribute a.name)
    else .ok (d.push a)

/-- The directory of a list of attributes. They are entered up to the first fault, and counted if
    there is none. -/
def create (attributes : List Attribute) : Except SchemaError Directory := do
  let d ← attributes.zipIdx.foldlM enter idOnly
  if PositionSet.capacity < d.attributes.size then
    .error (.tooManyAttributes d.attributes.size PositionSet.capacity)
  else .ok d

/-- The number of attributes. -/
def size : Nat := d.attributes.size

/-- The position of the attribute with the given name. -/
def position? (name : String) : Option Nat := d.positions[name]?

/-- The position of the given attribute: that of its name, the kind there being the same. -/
def positionOf? (a : Attribute) : Option Nat :=
  (d.position? a.name).filter fun i => d.attributes[i]?.map Attribute.kind = some a.kind

/-- An attribute has the given name. -/
def hasName (name : String) : Bool := d.positions.contains name

/-- The directory without the attributes at the given positions; the id always stays. -/
def without (missing : PositionSet) : Directory :=
  if missing.isEmpty then d
  else
    d.attributes.toList.zipIdx.foldl (fun kept (a, i) =>
      if i ≠ 0 && missing.contains i then kept else kept.push a) {}

/-- Two directories have the same attributes in the same order. -/
def isSameAs (other : Directory) : Bool := d.attributes = other.attributes

end Directory

end ColumnStore
