import ColumnStore.Double.Read
import ColumnStore.Double.Shortest
import ColumnStore.Text.Blank
import ColumnStore.Text.Quoted
import ColumnStore.Value.Basic

/-!
# Values in text

How a value is written in messages (`Value.display`) and how a value of a given kind is read
from a text (`Value.read?`).
-/

namespace ColumnStore.Value

/-- A value as messages write it: numbers in decimal, texts between quotes. -/
def display : Value → String
  | .long n => toString n.toInt
  | .int n => toString n.toInt
  | .double x => x.text
  | .bool b => if b then "true" else "false"
  | .text s => Text.quoted s

/-- The integer as a long, if it is in the range of longs. -/
def ofLong? (n : Int) : Option Value :=
  if Int64.minValue.toInt ≤ n ∧ n ≤ Int64.maxValue.toInt then some (.long (.ofInt n)) else none

/-- The integer as an int, if it is in the range of ints. -/
def ofInt? (n : Int) : Option Value :=
  if Int32.minValue.toInt ≤ n ∧ n ≤ Int32.maxValue.toInt then some (.int (.ofInt n)) else none

/-- Reads a truth value. -/
def readBool? (s : List Char) : Option Value :=
  if s = "true".toList then some (.bool true)
  else if s = "false".toList then some (.bool false)
  else none

/-- Reads a value of the given kind. Blanks around it do not count, but in a text all
    characters do. -/
def read? (k : Kind) (input : String) : Option Value :=
  let s := Text.trim input.toList
  match k with
  | .long => (Text.readInteger? s).bind ofLong?
  | .int => (Text.readInteger? s).bind ofInt?
  | .double => (Double.read? s).map .double
  | .bool => readBool? s
  | .text => some (.text input)

end ColumnStore.Value
