import ColumnStore.Double.Round
import ColumnStore.Text.Integer

/-!
# Reading a double

The decimal notation of a double (`Double.read?`): an optional sign, then either one of the
words `inf`, `infinity` and `nan` in any case, or digits with an optional point among or
around them and an optional exponent. The nearest double is taken.
-/

namespace ColumnStore.Double

/-- The exponent after the digits: nothing at all, or an `e` and an integer. -/
def readExponent? : List Char → Option Int
  | [] => some 0
  | c :: s => if c = 'e' ∨ c = 'E' then Text.readInteger? s else none

/-- Reads an unsigned decimal number: digits on at least one side of an optional point, then
    an optional exponent. -/
def readDecimal? (negative : Bool) (s : List Char) : Option Double :=
  let (whole, s) := s.span Char.isDigit
  let (part, s) :=
    match s with
    | '.' :: s => s.span Char.isDigit
    | s => ([], s)
  if whole = [] ∧ part = [] then none
  else
    (readExponent? s).map fun e =>
      ofDecimal negative (Text.digitsValue (whole ++ part)) (e - part.length)

/-- Reads the whole of a text as a double. -/
def read? (s : List Char) : Option Double :=
  let (negative, s) := Text.splitSign s
  let word := s.map Char.toLower
  if word = "inf".toList ∨ word = "infinity".toList then some (infinity negative)
  else if word = "nan".toList then some (nan negative)
  else readDecimal? negative s

end ColumnStore.Double
