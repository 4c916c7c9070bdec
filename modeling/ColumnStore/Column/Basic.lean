import ColumnStore.Segment.Basic

/-!
# Columns

A column holds the values of one attribute for all rows, in segments of which only the last
may have room left. `Column.ofSegments` accepts exactly such a row of segments.
-/

namespace ColumnStore

/-- The values of one attribute for all rows. -/
structure Column where
  kind : Kind
  segments : Array Segment
  size : Nat
deriving Inhabited

namespace Column

/-- The first segment of `count` that is out of place, looking at those from number `i` on. -/
def misplacedSegment? (kind : Kind) (count : Nat) : (i : Nat) → List Segment → Option LayoutError
  | _, [] => none
  | i, s :: rest =>
    if i + 1 ≠ count ∧ s.size ≠ Segment.capacity then some (.partialSegment i count s.size)
    else if s.kind ≠ kind then some (.foreignSegment i)
    else misplacedSegment? kind count (i + 1) rest

/-- The column of the given segments, if they are of its kind, all but the last are full, and
    together they have the given size. -/
def ofSegments (kind : Kind) (segments : Array Segment) (size : Nat) : Except LayoutError Column :=
  match misplacedSegment? kind segments.size 0 segments.toList with
  | some e => .error e
  | none =>
    let total := segments.toList.foldl (fun n s => n + s.size) 0
    if total = size then .ok ⟨kind, segments, size⟩ else .error (.wrongSize total size)

variable (c : Column)

/-- The encodings of the segments. -/
def encodings : List Encoding := c.segments.toList.map Segment.encoding

/-- Reads a row in its segment; a row past the end gives `default`. -/
def read (default : α) (f : Segment → Nat → α) (row : Nat) : α :=
  if row < c.size then
    match c.segments[Segment.indexOf row]? with
    | some s => f s (Segment.slotOf row)
    | none => default
  else default

/-- The value of a row. -/
def get? (row : Nat) : Option Value := c.read none Segment.get? row

/-- The integer of a row of longs or of ints. -/
def getInteger? (row : Nat) : Option Int64 := c.read none Segment.getInteger? row

/-- The number of a row as a double. -/
def getNumber? (row : Nat) : Option Double := c.read none Segment.getNumber? row

/-- The row is without a value, as are all past the end. -/
def isAbsent (row : Nat) : Bool := c.read true Segment.isAbsent row

/-- The values of all rows in order. -/
def toList : List (Option Value) := c.segments.toList.flatMap Segment.toList

end Column

end ColumnStore
