import ColumnStore.Postings

/-!
# Grouping

Items are grouped by the values that they come with where there are no postings of them: one after
the other is put at the end of the group of its value. Where the groups are listed their values
ascend.
-/

namespace ColumnStore

/-- The items that came with each value. -/
abbrev Grouping (α : Type) := Std.HashMap Value (Array α)

namespace Grouping

variable {α : Type}

/-- Puts an item in the group of its value; an item without a value is in no group. -/
def add (groups : Grouping α) : Option Value × α → Grouping α
  | (some v, x) => Postings.push groups v x
  | (none, _) => groups

/-- The groups of items that may come without a value, in their order. -/
def ofItems (items : List (Option Value × α)) : Grouping α := items.foldl add ∅

/-- The values with their groups, the values ascending. -/
def listing (groups : Grouping α) : List (Value × List α) := Value.inOrder groups.toList

end Grouping

end ColumnStore
