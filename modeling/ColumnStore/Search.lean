/-!
# Binary search

The place of an id among ascending ids (`search`): where it is, or where it would have to be.
-/

namespace ColumnStore

/-- Where an id is found among ascending ids. -/
inductive Place where
  /-- The id is at this position. -/
  | held (position : Nat)
  /-- The id is missing; those before this position are smaller, those from it on larger. -/
  | vacant (position : Nat)
deriving DecidableEq

/-- The position of a place that holds the id. -/
def Place.position? : Place → Option Nat
  | .held p => some p
  | .vacant _ => none

/-- Searches the positions from `low` to before `high`, reading ids in any monad. -/
@[specialize]
def searchBetween {m : Type → Type} [Monad m] (idAt : Nat → m Int64) (target : Int64)
    (low high : Nat) : m Place :=
  if low < high then do
    let middle := low + (high - low) / 2
    let id ← idAt middle
    if id < target then searchBetween idAt target (middle + 1) high
    else if target < id then searchBetween idAt target low middle
    else return .held middle
  else return .vacant low
termination_by high - low

/-- Searches all positions below `size`. -/
def search (size : Nat) (target : Int64) (idAt : Nat → Int64) : Place :=
  Id.run (searchBetween (fun p => pure (idAt p)) target 0 size)

end ColumnStore
