import ColumnStore.Entity
import ColumnStore.Table.Basic

/-!
# Rows

A row of a table is an entity. Its values lie in the columns, so whether it has one, and of
which kind, is answered from the column: asking a row for an attribute that the table does not
have is another error than asking for a value that the row does not have.
-/

namespace ColumnStore

/-- A row of a table. -/
structure Row where
  table : Table
  position : Nat

namespace Row

variable (r : Row)

/-- The id of the row. -/
def id : Int64 := r.table.idAt r.position

/-- The positions of the attributes that the row has no value for; it always has its id. -/
def absent : PositionSet :=
  (r.table.columns.toList.zipIdx 1).foldl (fun s (c, i) =>
    if c.isAbsent r.position then s.insert i else s) .empty

/-- The attributes that the row has a value for, with it. -/
def fields : List (Attribute × Value) :=
  (r.table.schema.attributes.zip r.table.allColumns).filterMap fun (a, c) =>
    (c.get? r.position).map (a, ·)

/-- The value under a name. -/
def get? (name : String) : Option Value := (r.table.column? name).bind (·.get? r.position)

/-- Reads a value of one kind under a name, given how to read it in a column. -/
def expect (kind : Kind) (read : Column → Nat → Option α) (name : String) : Except StoreError α :=
  match r.table.column? name with
  | none => .error (.noSuchAttribute name)
  | some c =>
    if c.kind ≠ kind then .error (.schema (.wrongKind name kind c.kind))
    else
      match read c r.position with
      | some x => .ok x
      | none => .error (.missingValue name r.id)

/-- A row in descriptions. -/
def display : String :=
  "RowEntity \x7b type: " ++ r.table.entityType.display ++ ", id: " ++ toString r.id.toInt
    ++ ", position: " ++ toString r.position ++ " \x7d"

/-- Of two rows of one table: they are the same row. -/
def isSameAs (s : Row) : Bool := r.position = s.position

end Row

instance : Entity Row where
  entityType r := r.table.entityType
  id := Row.id
  schema r := r.table.schema.without r.absent
  get? := Row.get?
  has r name := (r.table.column? name).any fun c => !c.isAbsent r.position
  getOf? r a :=
    ((r.table.schema.positionOf? a).bind r.table.columnAt?).bind (·.get? r.position)
  long r := r.expect .long Column.getInteger?
  double r := r.expect .double Column.getNumber?
  fields := Row.fields

end ColumnStore
