import ColumnStore.Double.Basic
import ColumnStore.Moments

/-!
# Accumulators

Summaries of doubles that can be taken of parts and put together: how many there are
(`Count`), their sum (`Total`), the least and the greatest (`Extent`), and their moments.
-/

namespace ColumnStore

/-- Summaries that start from nothing, take doubles one by one, and combine. -/
class Accumulator (α : Type) where
  empty : α
  push : α → Double → α
  combine : α → α → α

/-- How many doubles there are. -/
structure Count where
  value : Nat
deriving DecidableEq

instance : Accumulator Count where
  empty := ⟨0⟩
  push a _ := ⟨a.value + 1⟩
  combine a b := ⟨a.value + b.value⟩

/-- The sum of doubles, added from the first on. -/
structure Total where
  value : Float

instance : Accumulator Total where
  empty := ⟨0⟩
  push a x := ⟨a.value + x.toFloat⟩
  combine a b := ⟨a.value + b.value⟩

/-- The least and the greatest double; of none they are the two infinities. -/
structure Extent where
  min : Float
  max : Float

namespace Extent

/-- The lesser of two numbers; what is no number does not count. -/
def lesser (x y : Float) : Float :=
  if x.isNaN then y else if y.isNaN then x else if y < x then y else x

/-- The greater of two numbers; what is no number does not count. -/
def greater (x y : Float) : Float :=
  if x.isNaN then y else if y.isNaN then x else if x < y then y else x

end Extent

instance : Accumulator Extent where
  empty := ⟨(Double.infinity false).toFloat, (Double.infinity true).toFloat⟩
  push a x := ⟨Extent.lesser a.min x.toFloat, Extent.greater a.max x.toFloat⟩
  combine a b := ⟨Extent.lesser a.min b.min, Extent.greater a.max b.max⟩

instance : Accumulator (Moments Float) where
  empty := .empty
  push a x := a.push x.toFloat
  combine := Moments.combine

end ColumnStore
