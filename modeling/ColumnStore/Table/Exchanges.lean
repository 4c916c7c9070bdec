import ColumnStore.Column.Draft

/-!
# Sorting by exchanges

Rows are put in order in place: each cycle of the order is followed by exchanges, so that a
row is moved to where it belongs as soon as its place is free. All columns make the same
exchanges.

* `sortingOrder`: the rows in ascending order of their keys.
* `exchanges`: the exchanges that bring old row `order k` to row `k`.
-/

namespace ColumnStore

/-- The rows from the one with the smallest key on, rows with one key in their old order. -/
def sortingOrder (keys : Array Int64) : Array Nat :=
  ((List.range keys.size).mergeSort fun p q => keys.getD p 0 ≤ keys.getD q 0).toArray

/-- The exchanges that have been found, and the rows that they leave in place. -/
structure Exchanges where
  placed : Array Bool
  pairs : Array (Nat × Nat)

namespace Exchanges

/-- Follows the cycle of a row from row `j` of it on, at most `fuel` rows far. -/
def follow (order : Array Nat) (start : Nat) : (fuel j : Nat) → Exchanges → Exchanges
  | 0, _, e => e
  | fuel + 1, j, ⟨placed, pairs⟩ =>
    -- Row `j` now holds the old row `start`; it is to hold the old row `k`, still in place.
    let placed := placed.setIfInBounds j true
    let k := order.getD j start
    if k = start then ⟨placed, pairs⟩ else follow order start fuel k ⟨placed, pairs.push (j, k)⟩

/-- Follows the cycle of a row, unless it was followed from another row of it. -/
def visit (order : Array Nat) (e : Exchanges) (start : Nat) : Exchanges :=
  if e.placed.getD start true then e else follow order start order.size start e

end Exchanges

/-- The exchanges that put rows in the given order, a cycle of which has no more rows than
    there are. -/
def exchanges (order : Array Nat) : List (Nat × Nat) :=
  ((List.range order.size).foldl (Exchanges.visit order)
    ⟨.replicate order.size false, #[]⟩).pairs.toList

/-- Makes exchanges of rows, one after the other. -/
def Column.Draft.exchange (d : Draft) : List (Nat × Nat) → Except WriteError Draft
  | [] => .ok d
  | (i, j) :: rest =>
    match d.swap i j with
    | (.error e, _) => .error e
    | (.ok _, d) => d.exchange rest

end ColumnStore
