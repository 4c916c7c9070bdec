import ColumnStore.Text.Combining
import ColumnStore.Text.Unprintable

/-!
# Quoted text

Text between double quotes (`Text.quoted`), on one line and with every character visible:
quotes and backslashes are escaped, and so is what would not show by itself.
-/

namespace ColumnStore.Text

/-- The code point of a character in lower-case hexadecimal digits between braces. -/
def codePointEscape (c : Char) : List Char :=
  ['\\', 'u', '\x7b'] ++ Nat.toDigits 16 c.toNat ++ ['\x7d']

/-- How a character stands between quotes. -/
def escaped (c : Char) : List Char :=
  match c with
  | '"' => ['\\', '"']
  | '\\' => ['\\', '\\']
  | '\n' => ['\\', 'n']
  | '\r' => ['\\', 'r']
  | '\t' => ['\\', 't']
  | '\x00' => ['\\', '0']
  | c => if isCombining c || isUnprintable c then codePointEscape c else [c]

/-- A text between quotes. -/
def quoted (s : String) : String := .ofList ('"' :: s.toList.flatMap escaped ++ ['"'])

end ColumnStore.Text
