import ColumnStore.Double.Half
import ColumnStore.Value.Basic

/-!
# Formats

How a segment keeps the numbers of a kind: longs and ints in words of several widths, doubles
in a byte that counts halves or in full. A format holds some of the values of its kind
(`Format.encode?`), and reading gives back what was kept (`Format.decode`). Of each kind there is
a narrowest format and one that holds every value.
-/

namespace ColumnStore

/-- How numbers are kept in slots. -/
inductive Format where
  | long16
  | long32
  | long64
  | int16
  | int32
  | half
  | double
deriving DecidableEq, Inhabited

namespace Format

/-- What a slot keeps. -/
abbrev Payload : Format → Type
  | .long16 | .int16 => Int16
  | .long32 | .int32 => Int32
  | .long64 => Int64
  | .half => Int8
  | .double => Double

instance : (f : Format) → Inhabited f.Payload
  | .long16 | .int16 => ⟨(0 : Int16)⟩
  | .long32 | .int32 => ⟨(0 : Int32)⟩
  | .long64 => ⟨(0 : Int64)⟩
  | .half => ⟨(0 : Int8)⟩
  | .double => ⟨(⟨0⟩ : Double)⟩

/-- The kind whose values the format keeps. -/
def kind : Format → Kind
  | .long16 | .long32 | .long64 => .long
  | .int16 | .int32 => .int
  | .half | .double => .double

/-- The value that a payload stands for. -/
def decode : (f : Format) → f.Payload → Value
  | .long16, n => .long (Int16.toInt64 n)
  | .long32, n => .long (Int32.toInt64 n)
  | .long64, n => .long n
  | .int16, n => .int (Int16.toInt32 n)
  | .int32, n => .int n
  | .half, s => .double (Half.decode s)
  | .double, x => .double x

/-- The payload that stands for a value, if the format has one. -/
def encode? : (f : Format) → Value → Option f.Payload
  | .long16, .long n => if n.toInt16.toInt64 = n then some n.toInt16 else none
  | .long32, .long n => if n.toInt32.toInt64 = n then some n.toInt32 else none
  | .long64, .long n => some n
  | .int16, .int n => if n.toInt16.toInt32 = n then some n.toInt16 else none
  | .int32, .int n => some n
  | .half, .double x => Half.encode? x
  | .double, .double x => some x
  | _, _ => none

/-- The integer that a payload stands for, of a long or of an int. -/
def integer? : (f : Format) → f.Payload → Option Int64
  | .long16, n | .int16, n => some (Int16.toInt64 n)
  | .long32, n | .int32, n => some (Int32.toInt64 n)
  | .long64, n => some n
  | .half, _ | .double, _ => none

/-- The number that a payload stands for, as a double. -/
def number : (f : Format) → f.Payload → Double
  | .long16, n | .int16, n => .ofInt (Int16.toInt n)
  | .long32, n | .int32, n => .ofInt (Int32.toInt n)
  | .long64, n => .ofInt (Int64.toInt n)
  | .half, s => Half.decode s
  | .double, x => x

/-- The format holds the value. -/
def holds (f : Format) (v : Value) : Bool := (f.encode? v).isSome

/-- The narrowest format of a kind of numbers. -/
def narrowest? : Kind → Option Format
  | .long => some .long16
  | .int => some .int16
  | .double => some .half
  | .bool | .text => none

/-- The format of a kind of numbers that holds all of them. -/
def widest? : Kind → Option Format
  | .long => some .long64
  | .int => some .int32
  | .double => some .double
  | .bool | .text => none

end Format

end ColumnStore
