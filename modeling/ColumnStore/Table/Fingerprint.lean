import ColumnStore.Digest.MD5
import ColumnStore.Table.Query

/-!
# The fingerprint of a table

The MD5 digest of the contents of a table. They are written row by row, in the order of the
rows (`Table.contents`): the id of the row, then what each further column holds there. A cell
begins with a byte that tells its kind, or that it is absent, and a text tells its length, so
that no two contents of as many columns are written alike.
-/

namespace ColumnStore

/-- A cell in bytes: its tag, then its payload. -/
def cellBytes : Option Value → List UInt8
  | none => [0]
  | some (.long n) => 1 :: littleEndian 8 n.toUInt64.toNat
  | some (.int n) => 2 :: littleEndian 4 n.toUInt32.toNat
  | some (.double x) => 3 :: littleEndian 8 x.bits.toNat
  | some (.bool b) => [4, if b then 1 else 0]
  | some (.text s) =>
    let bytes := s.toUTF8.data.toList
    5 :: littleEndian 8 bytes.length ++ bytes

namespace Table

/-- The contents of a row in bytes. -/
def rowBytes (t : Table) (position : Nat) : List UInt8 :=
  littleEndian 8 (t.idAt position).toUInt64.toNat
    ++ t.columns.toList.flatMap fun c => cellBytes (c.get? position)

/-- The contents of all rows in bytes. -/
def contents (t : Table) : List UInt8 := (List.range t.size).flatMap t.rowBytes

/-- The digest of the contents. -/
def fingerprint (t : Table) : List UInt8 := MD5.hash t.contents

/-- Bytes in lower-case hexadecimal digits, two for each. -/
def hexText (bytes : List UInt8) : String :=
  .ofList (bytes.flatMap fun b =>
    [Nat.digitChar (b.toNat / 16), Nat.digitChar (b.toNat % 16)])

/-- What can be told of a table at a glance. -/
structure Description where
  entityType : EntityType
  size : Nat
  /-- The attributes as they are displayed. -/
  attributes : List String
  /-- The fingerprint in hexadecimal digits. -/
  fingerprint : String
deriving DecidableEq

/-- The description of a table. -/
def describe (t : Table) : Description where
  entityType := t.entityType
  size := t.size
  attributes := t.schema.attributes.map Attribute.display
  fingerprint := hexText t.fingerprint

/-- A table in descriptions. -/
def display (t : Table) : String :=
  "PackedEntityCollection \x7b type: " ++ t.entityType.display ++ ", entities: "
    ++ toString t.size ++ " \x7d"

end Table

end ColumnStore
