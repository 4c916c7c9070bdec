/-!
# Integers in text

An integer is written as an optional sign and at least one ASCII digit (`Text.readInteger?`).
-/

namespace ColumnStore.Text

/-- The number that a row of ASCII digits writes, the first digit the most significant. -/
def digitsValue (digits : List Char) : Nat :=
  digits.foldl (fun n c => 10 * n + (c.toNat - '0'.toNat)) 0

/-- Splits off an optional sign; the answer says whether it was a minus. -/
def splitSign : List Char → Bool × List Char
  | '-' :: s => (true, s)
  | '+' :: s => (false, s)
  | s => (false, s)

/-- Reads the whole of a text as an integer; no more than one sign may lead it. -/
def readInteger? (s : List Char) : Option Int :=
  let (negative, digits) := splitSign s
  if digits ≠ [] ∧ digits.all Char.isDigit then
    some (if negative then -digitsValue digits else digitsValue digits)
  else none

end ColumnStore.Text
