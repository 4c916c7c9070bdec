import ColumnStore.Error
import ColumnStore.Segment.Format
import ColumnStore.Segment.Geometry
import ColumnStore.Segment.Slots

/-!
# Segments

A segment holds the values of one attribute for a stretch of rows, numbers in a format that
fits all of them (`Segment.numbers`), other values as they are (`Segment.objects`). A slot may
be without a value.

* `Segment.put` writes a value that the format holds, and refuses any other.
* `Segment.widenFor` gives the segment in a format that holds a value, too. Which format that is
  and how it is got to is told for each format by itself (`Segment.wider?`).
* `Segment.write` does both, so that only a value of another kind or a slot past the capacity
  is refused.
-/

namespace ColumnStore

/-- How a segment keeps its values. -/
inductive Encoding where
  | numbers (format : Format)
  | objects
deriving DecidableEq

namespace Encoding

/-- The name of an encoding in messages. -/
def name : Encoding → String
  | .numbers .long16 => "i16-backed long"
  | .numbers .long32 => "i32-backed long"
  | .numbers .long64 => "long"
  | .numbers .int16 => "i16-backed int"
  | .numbers .int32 => "int"
  | .numbers .half => "fixed-point double"
  | .numbers .double => "double"
  | .objects => "object"

/-- The bytes that a slot of numbers takes. -/
def slotBytes? : Encoding → Option Nat
  | .numbers .half => some 1
  | .numbers .long16 | .numbers .int16 => some 2
  | .numbers .long32 | .numbers .int32 => some 4
  | .numbers .long64 | .numbers .double => some 8
  | .objects => none

end Encoding

/-- The values of one attribute for a stretch of rows. -/
inductive Segment where
  /-- Numbers in a format. -/
  | numbers (format : Format) (slots : Slots format.Payload)
  /-- Values of the given kind, or none, as they are. -/
  | objects (kind : Kind) (cells : Array (Option Value))

namespace Segment

/-- An empty segment for a kind, in the given format of numbers. -/
def ofFormat (kind : Kind) : Option Format → Segment
  | some f => .numbers f .empty
  | none => .objects kind #[]

/-- An empty segment that is as narrow as the kind allows. -/
def narrow (kind : Kind) : Segment := ofFormat kind (Format.narrowest? kind)

/-- An empty segment that never has to be widened. -/
def wide (kind : Kind) : Segment := ofFormat kind (Format.widest? kind)

instance : Inhabited Segment := ⟨.objects .text #[]⟩

variable (s : Segment)

/-- The encoding of the values. -/
def encoding : Encoding :=
  match s with
  | .numbers f _ => .numbers f
  | .objects .. => .objects

/-- The kind of the values. -/
def kind : Kind :=
  match s with
  | .numbers f _ => f.kind
  | .objects kind _ => kind

/-- The number of slots. -/
def size : Nat :=
  match s with
  | .numbers _ slots => slots.size
  | .objects _ cells => cells.size

/-- The segment has as many slots as it can. -/
def isFull : Bool := capacity ≤ s.size

/-- The segment keeps a mask of the present slots. -/
def hasMask : Bool :=
  match s with
  | .numbers _ slots => slots.hasMask
  | .objects .. => false

/-! ## Reading -/

/-- The slot is without a value, as are all past the end. -/
def isAbsent (slot : Nat) : Bool :=
  match s with
  | .numbers _ slots => !slots.isPresent slot
  | .objects _ cells => (cells.getD slot none).isNone

/-- The value of a slot. -/
def get? (slot : Nat) : Option Value :=
  match s with
  | .numbers f slots => (slots.get? slot).map f.decode
  | .objects _ cells => cells.getD slot none

/-- The integer of a slot of longs or of ints. -/
def getInteger? (slot : Nat) : Option Int64 :=
  match s with
  | .numbers f slots => (slots.get? slot).bind f.integer?
  | .objects .. => none

/-- The number of a slot as a double. -/
def getNumber? (slot : Nat) : Option Double :=
  match s with
  | .numbers f slots => (slots.get? slot).map f.number
  | .objects .. => none

/-- The values of all slots in order. -/
def toList : List (Option Value) := (List.range s.size).map s.get?

/-! ## Writing -/

/-- A slot past the capacity is refused. -/
def outOfRange? (slot : Nat) : Option WriteError :=
  if slot < capacity then none else some (.outOfRange slot capacity)

/-- Why a write is refused, if it is: the kind is looked at first, then the format, then the
    slot. -/
def refusal? (slot : Nat) : Option Value → Option WriteError
  | none => outOfRange? slot
  | some v =>
    if s.kind.accepts v then
      match s with
      | .numbers f _ =>
        if f.holds v then outOfRange? slot else some (.tooWide v s.encoding.name)
      | .objects .. => outOfRange? slot
    else some (.wrongKind v s.encoding.name)

/-- Writes to a slot what is not refused there. -/
def place (slot : Nat) (cell : Option Value) : Segment :=
  match s, cell with
  | .numbers f slots, none => .numbers f (slots.clear slot)
  | .numbers f slots, some v =>
    match f.encode? v with
    | some p => .numbers f (slots.put slot p)
    | none => .numbers f slots
  | .objects kind cells, cell =>
    let padded := cells ++ Array.replicate (slot + 1 - cells.size) none
    .objects kind (padded.setIfInBounds slot cell)

/-- Writes a value, or takes it out where there is none. -/
def put (slot : Nat) (cell : Option Value) : Except WriteError Segment :=
  match s.refusal? slot cell with
  | some e => .error e
  | none => .ok (s.place slot cell)

/-- The integer is one of 16 bits. -/
def fits16 (n : Int) : Bool := Int16.minValue.toInt ≤ n ∧ n ≤ Int16.maxValue.toInt

/-- The integer is one of 32 bits. -/
def fits32 (n : Int) : Bool := Int32.minValue.toInt ≤ n ∧ n ≤ Int32.maxValue.toInt

/-- The segment in a wider format, if it has a narrow one that has no room for the value. Each
    payload is converted by itself, and the mask stays as it is. -/
def wider? (v : Value) : Option Segment :=
  match s, v with
  | .numbers .long16 slots, .long n =>
    if fits16 n.toInt then none
    else if fits32 n.toInt then some (.numbers .long32 (slots.map Int16.toInt32))
    else some (.numbers .long64 (slots.map Int16.toInt64))
  | .numbers .long32 slots, .long n =>
    if fits32 n.toInt then none else some (.numbers .long64 (slots.map Int32.toInt64))
  | .numbers .int16 slots, .int n =>
    if fits16 n.toInt then none else some (.numbers .int32 (slots.map Int16.toInt32))
  | .numbers .half slots, .double x =>
    if (Half.encode? x).isSome then none else some (.numbers .double (slots.map Half.decode))
  | _, _ => none

/-- The segment in a wider format, if it takes one to hold the value. -/
def widenFor (cell : Option Value) : Except WriteError (Option Segment) :=
  match cell with
  | none => .ok none
  | some v =>
    if s.kind.accepts v then .ok (s.wider? v) else .error (.wrongKind v s.encoding.name)

/-- Widens the segment as far as the value requires, then writes it. A segment that was
    widened stays so, also when the slot is refused. -/
def write (slot : Nat) (cell : Option Value) : Except WriteError Unit × Segment :=
  match s.widenFor cell with
  | .error e => (.error e, s)
  | .ok wider? =>
    let s := wider?.getD s
    match s.refusal? slot cell with
    | some e => (.error e, s)
    | none => (.ok (), s.place slot cell)

/-- The same segment in no more memory than it needs. -/
def compact : Segment :=
  match s with
  | .numbers f slots => .numbers f slots.compact
  | .objects kind cells => .objects kind (cells.extract 0 cells.size)

end Segment

end ColumnStore
