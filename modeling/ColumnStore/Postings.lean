import ColumnStore.Value.Order
import Std.Data.HashMap

/-!
# Postings

For each value the list of what was recorded under it, in the order of recording. Postings of
longs go by the numbers themselves and pass over values of other kinds; all other postings go by
values of any kind. Where all values are listed they ascend.
-/

namespace ColumnStore

/-- What was recorded under each value. -/
inductive Postings (α : Type) where
  /-- Under longs only, by the number. -/
  | byLong (lists : Std.HashMap Int64 (Array α))
  /-- Under values of any kind. -/
  | byValue (lists : Std.HashMap Value (Array α))

namespace Postings

variable {α : Type}

/-- Nothing recorded, under values of one kind or of any. -/
def empty : (kind? : Option Kind) → Postings α
  | some .long => .byLong ∅
  | _ => .byValue ∅

/-- Puts an item after those that are there under a key. -/
def push {κ : Type} [BEq κ] [Hashable κ] (lists : Std.HashMap κ (Array α)) (k : κ) (x : α) :
    Std.HashMap κ (Array α) :=
  lists.alter k fun
    | none => some #[x]
    | some xs => some (xs.push x)

/-- Records an item under a long. -/
def addLong (p : Postings α) (n : Int64) (x : α) : Postings α :=
  match p with
  | .byLong lists => .byLong (push lists n x)
  | .byValue lists => .byValue (push lists (.long n) x)

/-- Records an item under a value, after those that are there. -/
def add (p : Postings α) (v : Value) (x : α) : Postings α :=
  match p, v with
  | p, .long n => p.addLong n x
  | .byValue lists, v => .byValue (push lists v x)
  | .byLong lists, _ => .byLong lists

/-- What was recorded under a value. -/
def find (p : Postings α) (v : Value) : List α :=
  match p, v with
  | .byLong lists, .long n => (lists.getD n #[]).toList
  | .byLong _, _ => []
  | .byValue lists, v => (lists.getD v #[]).toList

/-- The number of values that something was recorded under. -/
def size : Postings α → Nat
  | .byLong lists => lists.size
  | .byValue lists => lists.size

/-- The values with what was recorded under each, in no order. -/
def entries : Postings α → List (Value × Array α)
  | .byLong lists => lists.toList.map fun (n, xs) => (.long n, xs)
  | .byValue lists => lists.toList

/-- The values that something was recorded under, ascending. -/
def values (p : Postings α) : List Value := (p.entries.map Prod.fst).mergeSort Value.precedes

/-- The values with what was recorded under each, the values ascending. -/
def groups (p : Postings α) : List (Value × List α) := Value.inOrder p.entries

/-- Records an item if it comes with a value. -/
def addItem (p : Postings α) : Option Value × α → Postings α
  | (some v, x) => p.add v x
  | (none, _) => p

/-- The postings of items that may come without a value, in their order. -/
def ofList (kind? : Option Kind) (items : List (Option Value × α)) : Postings α :=
  items.foldl addItem (empty kind?)

end Postings

end ColumnStore
