/-!
# Segment geometry

A column is cut into segments of equal capacity. The number of a row is a segment and a slot
in it.
-/

namespace ColumnStore.Segment

/-- The number of bits of a row number that name a slot. -/
def slotBits : Nat := 12

/-- The number of slots of a full segment. -/
def capacity : Nat := 1 <<< slotBits

/-- The segment that a row lies in. -/
def indexOf (row : Nat) : Nat := row / capacity

/-- The slot of a row in its segment. -/
def slotOf (row : Nat) : Nat := row % capacity

end ColumnStore.Segment
