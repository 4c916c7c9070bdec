import ColumnStore.Accumulator
import ColumnStore.Grouping
import ColumnStore.Reduce
import ColumnStore.Table.Row

/-!
# Queries on tables

Rows by position and by id, rows that hold a value, rows grouped by value, and columns of
numbers reduced to one result. An index only shortens the way to the rows: where there is none, a
column is looked through.
-/

namespace ColumnStore.Table

variable (t : Table)

/-- The row at a position. -/
def row? (position : Nat) : Option Row := if position < t.size then some ⟨t, position⟩ else none

/-- All rows in order. -/
def rows : List Row := (List.range t.size).map (⟨t, ·⟩)

/-- The position of the row with an id. -/
def positionOf? (id : Int64) : Option Nat := t.idSet.position? id

/-- The row with an id. -/
def lookup? (id : Int64) : Option Row := (t.positionOf? id).map (⟨t, ·⟩)

/-- Some row has the id. -/
def contains (id : Int64) : Bool := (t.positionOf? id).isSome

/-! ## Rows by value -/

/-- The rows of a column that hold a value. A long is looked for among the bare numbers, if they are
    longs. -/
def scan (c : Column) (v : Value) : List Row :=
  match v, c.kind with
  | .long n, .long => ((List.range t.size).filter fun p => c.getInteger? p = some n).map (⟨t, ·⟩)
  | v, _ => ((List.range t.size).filter fun p => c.get? p = some v).map (⟨t, ·⟩)

/-- The rows that hold a value for the attribute at a position: from its index where it has
    one, by search where it is the id, and else by looking through the column. -/
def findAt (i : Nat) (v : Value) : List Row :=
  match t.indexAt? i, i with
  | some index, _ => (index.find v).map (⟨t, ·⟩)
  | none, 0 => (v.long?.bind t.lookup?).toList
  | none, i => ((t.columnAt? i).map fun c => t.scan c v).getD []

/-- The rows that hold a value under a name. -/
def find (name : String) (v : Value) : List Row :=
  match t.schema.position? name with
  | some i => t.findAt i v
  | none => []

/-- The rows that hold a value for an attribute, which the schema has to have with the same
    kind. -/
def findOf (a : Attribute) (v : Value) : List Row :=
  match t.schema.positionOf? a with
  | some i => t.findAt i v
  | none => []

/-- The rows of a column in groups by value, got by going through its cells. -/
def collect (c : Column) : Grouping Row :=
  .ofItems (c.toList.zipIdx.map fun cell => (cell.1, ⟨t, cell.2⟩))

/-- The values under a name with the rows that hold each, the values ascending: from the index of
    the attribute where it has one, and else by going through the column. -/
def grouped (name : String) : List (Value × List Row) :=
  match t.schema.position? name with
  | none => []
  | some i =>
    match t.indexAt? i with
    | some index => index.groups.map fun (v, ps) => (v, ps.map (⟨t, ·⟩))
    | none => ((t.columnAt? i).map fun c => (t.collect c).listing).getD []

/-! ## Numbers of a column -/

/-- Reduces the numbers under a name, segment by segment. -/
def reduce (name : String) (start : β) (push : β → Double → β) (combine : β → β → β) :
    Except StoreError β :=
  match t.column? name with
  | none => .error (.noSuchAttribute name)
  | some c =>
    if c.kind.isNumeric then .ok (c.reduce start push combine)
    else .error (.schema (.wrongKind name .double c.kind))

/-- The summary of the numbers under a name. -/
def summarize (α : Type) [Accumulator α] (name : String) : Except StoreError α :=
  t.reduce name Accumulator.empty Accumulator.push (Accumulator.combine : α → α → α)

end ColumnStore.Table
