/-!
# Moments

The number of samples, their mean, and the sum of their squared deviations from it, kept up
sample by sample (`Moments.push`) and for samples taken together (`Moments.combine`). The
numbers may be of any type that has the four operations.
-/

namespace ColumnStore

instance natCastFloat : NatCast Float := ⟨Float.ofNat⟩

/-- The first two moments of samples. -/
structure Moments (α : Type) where
  count : Nat
  mean : α
  /-- The sum of the squared deviations from the mean. -/
  deviation : α

namespace Moments

variable {α : Type} [NatCast α] [Add α] [Sub α] [Mul α] [Div α]

/-- The moments of no samples. -/
def empty : Moments α := ⟨0, (0 : Nat), (0 : Nat)⟩

/-- The moments with one more sample. -/
def push (m : Moments α) (x : α) : Moments α :=
  let count := m.count + 1
  let delta := x - m.mean
  let mean := m.mean + delta / (count : α)
  ⟨count, mean, m.deviation + delta * (x - mean)⟩

/-- The moments of both groups of samples. -/
def combine (a b : Moments α) : Moments α :=
  if b.count = 0 then a
  else if a.count = 0 then b
  else
    let count := a.count + b.count
    let delta := b.mean - a.mean
    ⟨count, a.mean + delta * (b.count : α) / (count : α),
      a.deviation + b.deviation
        + delta * delta * ((a.count : α) * (b.count : α)) / (count : α)⟩

/-- The variance of samples, zero for less than two. -/
def variance (m : Moments α) : α :=
  if 1 < m.count then m.deviation / ((m.count - 1 : Nat) : α) else ((0 : Nat) : α)

end Moments

end ColumnStore
