import ColumnStore.Postings
import ColumnStore.Record.Basic

/-!
# Indexes of records

The records that hold each value under one name, of any kind or of one kind only. A draft of
an index serves once: after it was built it takes no record and is not built again.
-/

namespace ColumnStore

/-- The records that hold each value under a name. -/
structure RecordIndex where
  name : String
  /-- The kind of the values, if values of other kinds are passed over. -/
  kind? : Option Kind
  postings : Postings Record

namespace RecordIndex

/-- The value that a record is indexed by. -/
def keyOf (name : String) (kind? : Option Kind) (r : Record) : Option Value :=
  (r.get? name).filter fun v => kind?.all (·.accepts v)

/-- The index of records in their order. -/
def ofRecords (name : String) (kind? : Option Kind) (records : List Record) : RecordIndex where
  name
  kind?
  postings := .ofList kind? (records.map fun r => (keyOf name kind? r, r))

/-- The records that hold a value, in the order in which they were added. -/
def find (i : RecordIndex) (v : Value) : List Record := i.postings.find v

/-- An index in the making; it has no postings any more once it was built. -/
structure Draft where
  name : String
  kind? : Option Kind := none
  postings? : Option (Postings Record) := some (.empty kind?)

namespace Draft

/-- A draft for the values of an attribute. -/
def ofAttribute (a : Attribute) : Draft := { name := a.name, kind? := some a.kind }

/-- A draft for the values of any kind under a name. -/
def ofName (name : String) : Draft := { name }

/-- Adds a record; without a value to index it by it is passed over. -/
def add (d : Draft) (r : Record) : Except StoreError Draft :=
  match d.postings? with
  | none => .error .indexAlreadyBuilt
  | some p =>
    match keyOf d.name d.kind? r with
    | some v => .ok { d with postings? := some (p.add v r) }
    | none => .ok d

/-- The index of the draft, and the draft that was built. -/
def build (d : Draft) : Except StoreError (RecordIndex × Draft) :=
  match d.postings? with
  | none => .error .indexAlreadyBuilt
  | some postings =>
    .ok ({ name := d.name, kind? := d.kind?, postings }, { d with postings? := none })

end Draft

end RecordIndex

end ColumnStore
