import ColumnStore.Column.Basic
import ColumnStore.Postings

/-!
# Indexes of rows

The row numbers that hold each value. Rows are recorded one by one (`Index.Draft`); an index of
longs takes longs only, while any other takes every value. The index of a column has all its rows
(`Index.ofColumn`), which are told apart by their numbers as long as there are not more of them than
numbers.
-/

namespace ColumnStore

/-- The rows that hold each value. -/
abbrev Index := Postings Nat

/-- How many row numbers there are: they have 32 bits. -/
def Index.rowNumbers : Nat := 1 <<< 32

/-- The number of a row. -/
def Index.rowNumber (row : Nat) : Nat := row % rowNumbers

/-- An index in the making. -/
structure Index.Draft where
  /-- The kind that the index is meant for. -/
  kind : Kind
  rows : Index := .empty (some kind)

namespace Index.Draft

/-- Records that a row holds a value, if the index takes it. -/
def add (d : Draft) (v : Value) (row : Nat) : Draft := { d with rows := d.rows.add v row }

/-- Records that a row holds a long, which every index takes. -/
def addLong (d : Draft) (n : Int64) (row : Nat) : Draft :=
  { d with rows := d.rows.addLong n row }

/-- Records what a row holds, if it holds anything. -/
def addCell (d : Draft) : Option Value × Nat → Draft
  | (some v, row) => d.add v row
  | (none, _) => d

/-- Records the long that a row holds, if it holds one. -/
def addNumber (d : Draft) : Option Int64 × Nat → Draft
  | (some n, row) => d.addLong n row
  | (none, _) => d

/-- The index of the draft. -/
def build (d : Draft) : Index := d.rows

end Index.Draft

/-- The index of all rows of a column that have a value. Longs are read row by row, and other
    values are listed by the segments. -/
def Index.ofColumn (c : Column) : Index :=
  let d : Draft := { kind := c.kind }
  if c.kind = .long then
    ((List.range c.size).foldl (fun d row =>
      d.addNumber (c.getInteger? row, rowNumber row)) d).build
  else (c.toList.zipIdx.foldl (fun d (v?, row) => d.addCell (v?, rowNumber row)) d).build

end ColumnStore
