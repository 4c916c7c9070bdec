import ColumnStore.Column.Basic

/-!
# Drafts of columns

A column in the making: rows are appended, overwritten and exchanged. A write may be refused;
what it has done to the draft until then stays.
-/

namespace ColumnStore

/-- A column in the making. -/
structure Column.Draft where
  kind : Kind
  segments : Array Segment := #[]
  size : Nat := 0
deriving Inhabited

namespace Column.Draft

/-- The encodings of the segments. -/
def encodings (d : Draft) : List Encoding := d.segments.toList.map Segment.encoding

/-- Reads a row in its segment; a row past the end gives `default`. -/
def read (d : Draft) (default : α) (f : Segment → Nat → α) (row : Nat) : α :=
  if row < d.size then
    match d.segments[Segment.indexOf row]? with
    | some s => f s (Segment.slotOf row)
    | none => default
  else default

/-- The value of a row. -/
def get? (d : Draft) (row : Nat) : Option Value := d.read none Segment.get? row

/-- The integer of a row of longs or of ints. -/
def getInteger? (d : Draft) (row : Nat) : Option Int64 := d.read none Segment.getInteger? row

/-- The row is without a value, as are all past the end. -/
def isAbsent (d : Draft) (row : Nat) : Bool := d.read true Segment.isAbsent row

/-- Takes a segment out of an array and leaves an empty one in its place. This is a function of
    its own so that the segment is in no other hands when it is written to. -/
@[noinline]
def takeOut (segments : Array Segment) (i : Nat) (h : i < segments.size) :
    Segment × Array Segment :=
  segments.swapAt i default h

/-- Writes to a row whose segment there is. The segment is taken out of the array meanwhile,
    so that it is changed in place. -/
def write (d : Draft) (row : Nat) (cell : Option Value) : Except WriteError Unit × Draft :=
  match d with
  | ⟨kind, segments, size⟩ =>
    if h : Segment.indexOf row < segments.size then
      let (s, others) := takeOut segments (Segment.indexOf row) h
      let (result, s) := s.write (Segment.slotOf row) cell
      (result, ⟨kind, others.setIfInBounds (Segment.indexOf row) s, size⟩)
    else (.error (.outOfRange row size), ⟨kind, segments, size⟩)

/-- Opens a new segment when all others are full. -/
def openSegment (d : Draft) : Draft :=
  match d with
  | ⟨kind, segments, size⟩ =>
    if segments.size = Segment.indexOf size then ⟨kind, segments.push (.narrow kind), size⟩
    else ⟨kind, segments, size⟩

/-- Appends a row. The segment for it is opened first, and stays also when the value is
    refused. -/
def append (d : Draft) (cell : Option Value) : Except WriteError Unit × Draft :=
  let row := d.size
  match d.openSegment.write row cell with
  | (.ok _, ⟨kind, segments, size⟩) => (.ok (), ⟨kind, segments, size + 1⟩)
  | (.error e, d) => (.error e, d)

/-- Refuses a row past the end. -/
def pastEnd? (d : Draft) (row : Nat) : Option WriteError :=
  if row < d.size then none else some (.outOfRange row d.size)

/-- Overwrites a row. -/
def set (d : Draft) (row : Nat) (cell : Option Value) : Except WriteError Unit × Draft :=
  match d.pastEnd? row with
  | some e => (.error e, d)
  | none => d.write row cell

/-- Exchanges two rows, writing the one before the other. -/
def swap (d : Draft) (i j : Nat) : Except WriteError Unit × Draft :=
  match d.pastEnd? i <|> d.pastEnd? j with
  | some e => (.error e, d)
  | none =>
    if i = j then (.ok (), d)
    else
      -- Both are read before the first write, which may widen the segment of the second.
      let atI := d.get? i
      let atJ := d.get? j
      match d.write i atJ with
      | (.error e, d) => (.error e, d)
      | (.ok _, d) => d.write j atI

/-- The column as it is now, the draft staying open. -/
def peek (d : Draft) : Except LayoutError Column :=
  Column.ofSegments d.kind d.segments d.size

/-- The column of the draft. -/
def build (d : Draft) : Except LayoutError Column :=
  Column.ofSegments d.kind (d.segments.map Segment.compact) d.size

end Column.Draft

end ColumnStore
