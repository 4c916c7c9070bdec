import ColumnStore.Double.Round

/-!
# Values

What an attribute of an entity may hold: a value of one of five kinds. Equality is that of
the kind and of the payload, of doubles bit for bit, so that every value can be the key of an
index.
-/

namespace ColumnStore

/-- The kinds of values. -/
inductive Kind where
  | long
  | int
  | double
  | bool
  | text
deriving DecidableEq, Hashable, Inhabited

/-- A value of one of the kinds. -/
inductive Value where
  | long (n : Int64)
  | int (n : Int32)
  | double (x : Double)
  | bool (b : Bool)
  | text (s : String)
deriving DecidableEq, Hashable, Inhabited

/-- The kind of a value. -/
def Value.kind : Value → Kind
  | .long _ => .long
  | .int _ => .int
  | .double _ => .double
  | .bool _ => .bool
  | .text _ => .text

namespace Kind

/-- All kinds, in the order in which values of different kinds are listed. -/
def all : List Kind := [.long, .int, .double, .bool, .text]

/-- The name of a kind. -/
def name : Kind → String
  | .long => "long"
  | .int => "int"
  | .double => "double"
  | .bool => "bool"
  | .text => "text"

/-- The kind with the given name, or with another usual name of it, in any case. -/
def ofName? (name : String) : Option Kind :=
  let lower := name.map Char.toLower
  if lower ∈ ["long", "i64"] then some .long
  else if lower ∈ ["int", "integer", "i32"] then some .int
  else if lower ∈ ["double", "f64", "real"] then some .double
  else if lower ∈ ["bool", "boolean"] then some .bool
  else if lower ∈ ["text", "string", "str"] then some .text
  else none

/-- A kind accepts the values of that kind. -/
def accepts (k : Kind) (v : Value) : Bool := v.kind = k

/-- The values of the kind are numbers. -/
def isNumeric : Kind → Bool
  | .long | .int | .double => true
  | .bool | .text => false

end Kind

namespace Value

/-- The payload of a long. -/
def long? : Value → Option Int64
  | .long n => some n
  | _ => none

theorem long?_eq_some {v : Value} {n : Int64} : v.long? = some n ↔ v = .long n := by
  rcases v with m | m | x | b | s <;> simp [long?]

theorem exists_long_of_kind {v : Value} (h : v.kind = .long) : ∃ n, v = .long n := by
  cases v with
  | long n => exact ⟨n, rfl⟩
  | int | double | bool | text => cases h

/-- The payload of an int. -/
def int? : Value → Option Int32
  | .int n => some n
  | _ => none

/-- The payload of a double. -/
def double? : Value → Option Double
  | .double x => some x
  | _ => none

/-- The payload of a truth value. -/
def bool? : Value → Option Bool
  | .bool b => some b
  | _ => none

/-- The payload of a text. -/
def text? : Value → Option String
  | .text s => some s
  | _ => none

/-- The payload of a long or of an int. -/
def integer? : Value → Option Int64
  | .long n => some n
  | .int n => some n.toInt64
  | _ => none

/-- A number of any kind as a double, rounded to the nearest one. -/
def number? : Value → Option Double
  | .long n => some (.ofInt n.toInt)
  | .int n => some (.ofInt n.toInt)
  | .double x => some x
  | .bool _ | .text _ => none

end Value

end ColumnStore
