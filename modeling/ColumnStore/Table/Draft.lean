import ColumnStore.AddOutcome
import ColumnStore.Entity
import ColumnStore.Table.Basic
import ColumnStore.Table.Exchanges
import Std.Data.HashSet

/-!
# Drafts of tables

A table in the making takes entities one by one. While their ids ascend, a known id is found
by search, and its row can be replaced. From the first new id that comes late on, the ids are
kept in a set, known ids are refused replacement, and the rows are sorted when the table is
built.

An entity gives a row the values that it lists for attributes of the schema, name and kind
being the same; a listed value of another kind than its attribute's is an error.
-/

namespace ColumnStore

/-- In which order the ids have come so far. -/
inductive Table.Arrival where
  /-- They have ascended to the last one, if there is any. -/
  | ascending (last : Option Int64)
  /-- Some came late; these are all of them. -/
  | scattered (seen : Std.HashSet Int64)

/-- The order of arrival with one more new id. -/
def Table.Arrival.insert (id : Int64) : Table.Arrival → Table.Arrival
  | .ascending _ => .ascending (some id)
  | .scattered seen => .scattered (seen.insert id)

/-- A table in the making. -/
structure Table.Draft where
  entityType : EntityType
  schema : Schema
  ids : Column.Draft := { kind := .long }
  /-- The columns of the attributes after the id. -/
  columns : List Column.Draft := schema.named.map fun a => { kind := a.kind }
  arrival : Table.Arrival := .ascending none
  /-- The positions of the attributes that will have an index. -/
  indexed : PositionSet := .empty
  settings : Table.Settings := {}

/-- The number of rows that a table can have. -/
def Table.maxRows : Nat := 1 <<< 32

namespace Table.Draft

/-- The number of rows. -/
def size (d : Draft) : Nat := d.ids.size

/-- The ids have ascended so far. -/
def isSorted (d : Draft) : Bool :=
  match d.arrival with
  | .ascending _ => true
  | .scattered _ => false

/-- The id of a row. -/
def idAt (d : Draft) (row : Nat) : Int64 := (d.ids.getInteger? row).getD 0

/-- The draft with other settings. -/
def withSettings (d : Draft) (settings : Settings) : Draft := { d with settings }

/-- Asks for an index of the attribute at a position, if there is one. -/
def indexAt (d : Draft) : Option Nat → Draft
  | some i => { d with indexed := d.indexed.insert i }
  | none => d

/-- Asks for an index of the attribute with a name; a name without attribute is passed over. -/
def addIndex (d : Draft) (name : String) : Draft := d.indexAt (d.schema.position? name)

/-- Asks for an index of an attribute, if the schema has it with the same kind. -/
def addIndexOf (d : Draft) (a : Attribute) : Draft := d.indexAt (d.schema.positionOf? a)

/-! ## Adding -/

/-- The first field for an attribute of the schema that has a value of another kind. -/
def misfit? (schema : Schema) (fields : List (Attribute × Value)) : Option SchemaError :=
  fields.findSome? fun (a, v) =>
    if a ∈ schema.named ∧ !a.kind.accepts v then some (.wrongKind a.name a.kind v.kind) else none

/-- The value that fields have for an attribute. -/
def cellOf (fields : List (Attribute × Value)) (a : Attribute) : Option Value :=
  fields.foldl (fun cell (b, v) => if b = a then some v else cell) none

/-- The cells that fields give a row, one for each attribute after the id. -/
def cellsOf (schema : Schema) (fields : List (Attribute × Value)) :
    Except SchemaError (List (Option Value)) :=
  match misfit? schema fields with
  | some e => .error e
  | none => .ok (schema.named.map (cellOf fields))

/-- Writes a cell to each column in turn, up to the first refusal. -/
def writeCells (write : Column.Draft → Option Value → Except WriteError Unit × Column.Draft) :
    List Column.Draft → List (Option Value) → Except WriteError Unit × List Column.Draft
  | c :: columns, cell :: cells =>
    match write c cell with
    | (.error e, c) => (.error e, c :: columns)
    | (.ok _, c) =>
      let (result, columns) := writeCells write columns cells
      (result, c :: columns)
  | columns, _ => (.ok (), columns)

/-- How an id stands to those that have come before it. -/
inductive Standing where
  /-- It is new, and the ids ascend if they have so far. -/
  | next
  /-- It is new and the first one to come late. -/
  | late
  /-- It is that of a row. -/
  | held (row : Nat)
  /-- It is known, but not where. -/
  | known
deriving DecidableEq

/-- How an id stands to those of the rows. -/
def standing (d : Draft) (id : Int64) : Standing :=
  match d.arrival with
  | .ascending none => .next
  | .ascending (some last) =>
    if last < id then .next
    else
      match search d.size id d.idAt with
      | .held row => .held row
      | .vacant _ => .late
  | .scattered seen => if seen.contains id then .known else .next

/-- The ids of the rows as a set. -/
def idSet (d : Draft) : Std.HashSet Int64 :=
  (List.range d.size).foldl (fun seen row =>
    match d.ids.getInteger? row with
    | some id => seen.insert id
    | none => seen) ∅

/-- Keeps the ids in a set from now on. -/
def scatter (d : Draft) : Draft :=
  let seen := d.idSet
  { d with arrival := .scattered seen }

/-- Appends a row with a new id. -/
def appendRow (d : Draft) (id : Int64) (cells : List (Option Value)) :
    Except StoreError AddOutcome × Draft :=
  let size := d.size
  if maxRows ≤ size then (.error (.rowLimit (size + 1) maxRows), d)
  else
    match d with
    | ⟨entityType, schema, ids, columns, arrival, indexed, settings⟩ =>
      match ids.append (some (.long id)) with
      | (.error e, ids) =>
        (.error (.write e), ⟨entityType, schema, ids, columns, arrival, indexed, settings⟩)
      | (.ok _, ids) =>
        match writeCells Column.Draft.append columns cells with
        | (.error e, columns) =>
          (.error (.write e), ⟨entityType, schema, ids, columns, arrival, indexed, settings⟩)
        | (.ok _, columns) =>
          (.ok .added,
            ⟨entityType, schema, ids, columns, arrival.insert id, indexed, settings⟩)

/-- Overwrites all of a row but its id. -/
def overwriteRow (d : Draft) (row : Nat) (cells : List (Option Value)) :
    Except StoreError AddOutcome × Draft :=
  match d with
  | ⟨entityType, schema, ids, columns, arrival, indexed, settings⟩ =>
    let (result, columns) := writeCells (fun c cell => c.set row cell) columns cells
    ((result.mapError .write).map fun _ => .replaced,
      ⟨entityType, schema, ids, columns, arrival, indexed, settings⟩)

/-- Adds an entity. Its values are looked at before its id is: an entity with a misfit is an
    error also where it would be left out. -/
def add [Entity ε] (d : Draft) (e : ε) (replace : Bool) : Except StoreError AddOutcome × Draft :=
  let id := Entity.id e
  match cellsOf d.schema (Entity.fields e) with
  | .error e => (.error (.schema e), d)
  | .ok cells =>
    match d.standing id with
    | .next => d.appendRow id cells
    | .late => d.scatter.appendRow id cells
    | .held row => if replace then d.overwriteRow row cells else (.ok .dropped, d)
    | .known => if replace then (.error (.replaceUnsorted id), d) else (.ok .dropped, d)

/-! ## Building -/

/-- The draft with its rows in ascending order of their ids. -/
def sort (d : Draft) : Except StoreError Draft :=
  let pairs := exchanges (sortingOrder ((Array.range d.size).map d.idAt))
  match d with
  | ⟨entityType, schema, ids, columns, _, indexed, settings⟩ => do
    let ids ← (ids.exchange pairs).mapError .write
    let columns ← (columns.mapM (Column.Draft.exchange · pairs)).mapError .write
    let last := ids.getInteger? (ids.size - 1)
    .ok ⟨entityType, schema, ids, columns, .ascending last, indexed, settings⟩

/-- The table of the rows in the order in which they have come, without any index; the draft
    stays open. -/
def peek (d : Draft) : Except LayoutError Table := do
  let ids ← d.ids.peek
  let columns ← d.columns.mapM Column.Draft.peek
  Table.ofColumns d.entityType d.schema ids columns.toArray (.replicate d.schema.size none)
    d.isSorted d.settings

/-- The indexes that were asked for, of the given columns by position. -/
def indexesOf (indexed : PositionSet) (columns : List Column) : List (Option Index) :=
  columns.zipIdx.map fun (c, i) => if indexed.contains i then some (.ofColumn c) else none

/-- The table of the rows in ascending order of their ids. -/
def build (d : Draft) : Except StoreError Table := do
  let d ← if d.isSorted then .ok d else d.sort
  let ids ← d.ids.build.mapError .layout
  let columns ← (d.columns.mapM Column.Draft.build).mapError .layout
  (Table.ofColumns d.entityType d.schema ids columns.toArray
    (indexesOf d.indexed (ids :: columns)).toArray true d.settings).mapError .layout

/-- A draft in descriptions. -/
def display (d : Draft) : String :=
  "PackedEntityCollectionBuilder \x7b type: " ++ d.entityType.display ++ ", entities: "
    ++ toString d.size ++ ", sorted: " ++ toString d.isSorted ++ " \x7d"

end Table.Draft

end ColumnStore
