/-!
# Little-endian bytes
-/

namespace ColumnStore

/-- The lowest `width` bytes of a number, the lowest one first. -/
def littleEndian : (width n : Nat) → List UInt8
  | 0, _ => []
  | width + 1, n => .ofNat n :: littleEndian width (n / 256)

end ColumnStore
