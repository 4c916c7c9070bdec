/-!
# Sets of small positions

A set of positions below 64 in the bits of one word. The members are listed from the lowest
on: each is taken out of a word (`takeLowest`), which leaves a smaller one (`takeLowest_lt`), so the
listing ends.
-/

namespace ColumnStore

/-- A set of positions below 64. -/
structure PositionSet where
  /-- The bit `i` is set when `i` is a member. -/
  word : UInt64
deriving DecidableEq, Hashable

namespace PositionSet

/-- How many positions there are. -/
def capacity : Nat := 64

/-- The set without members. -/
def empty : PositionSet := ⟨0⟩

instance : Inhabited PositionSet := ⟨empty⟩

variable (s : PositionSet)

/-- The set with a position below `capacity` in it. -/
def insert (i : Nat) : PositionSet := ⟨s.word ||| (1 : UInt64) <<< UInt64.ofNat i⟩

/-- The set with a position below `capacity` out of it. -/
def erase (i : Nat) : PositionSet := ⟨s.word &&& ~~~((1 : UInt64) <<< UInt64.ofNat i)⟩

/-- The position is a member; none from `capacity` on is. -/
def contains (i : Nat) : Bool := i < capacity && s.word.toNat.testBit i

/-- The set has no members. -/
def isEmpty : Bool := s.word = 0

/-- The number of members. -/
def size : Nat := (List.range capacity).countP s.contains

/-- The position of the lowest bit of a word, found among the `fuel` positions from `i` on. -/
def lowestBit (word : UInt64) : (fuel i : Nat) → Nat
  | 0, i => i
  | fuel + 1, i => if word.toNat.testBit i then i else lowestBit word fuel (i + 1)

/-- Taking the lowest bit out of a word makes it smaller. -/
theorem clearLowest_lt {word : UInt64} (h : word ≠ 0) :
    (word &&& (word - 1)).toNat < word.toNat := by
  have hpos : 0 < word.toNat := Nat.pos_of_ne_zero fun h0 => h (UInt64.toNat_inj.1 h0)
  have hone : (1 : UInt64) ≤ word := UInt64.le_iff_toNat_le.2 hpos
  calc (word &&& (word - 1)).toNat
      ≤ (word - 1).toNat := by rw [UInt64.toNat_and]; exact Nat.and_le_right
    _ = word.toNat - 1 := UInt64.toNat_sub_of_le _ _ hone
    _ < word.toNat := Nat.sub_lt hpos Nat.one_pos

/-- Takes the lowest position out of a word, if there is one left: the position, and the word
    without it. -/
def takeLowest (word : UInt64) : Option Nat × UInt64 :=
  if word = 0 then (none, word)
  else (some (lowestBit word capacity 0), word &&& (word - 1))

theorem takeLowest_lt {word rest : UInt64} {i : Nat} (h : takeLowest word = (some i, rest)) :
    rest.toNat < word.toNat := by
  by_cases hzero : word = 0
  · rw [takeLowest, if_pos hzero] at h
    cases h
  · rw [takeLowest, if_neg hzero] at h
    cases h
    exact clearLowest_lt hzero

/-- The positions of the bits of a word, from the lowest on. -/
def bitPositions (word : UInt64) : List Nat :=
  match _h : takeLowest word with
  | (none, _) => []
  | (some i, rest) => i :: bitPositions rest
termination_by word.toNat
decreasing_by exact takeLowest_lt _h

/-- The members, ascending. -/
def toList : List Nat := bitPositions s.word

end PositionSet

end ColumnStore
