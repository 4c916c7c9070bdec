import ColumnStore.Grouping
import ColumnStore.Proofs.Postings
import ColumnStore.Proofs.Value.Order

/-!
# Groups are the same with postings and without

Items that are grouped one by one are in the groups of the values that they came with
(`Grouping.groups_listing`), as they would be if they were recorded in postings that take all values
(`Grouping.byValue_ofItems`).

Groups that are listed by ascending values are in order (`Postings.Ascends`), and then what is found
under each value leaves no choice for them (`Groups.eq_of_ascends`). So no listing tells what it was
made from.
-/

namespace ColumnStore

variable {α β : Type}

namespace Postings

/-! ## Groups in order -/

/-- The values of the groups ascend. -/
def Ascends (groups : List (Value × List α)) : Prop :=
  groups.Pairwise fun a b => a.1.precedes b.1

theorem ascends_inOrder (entries : List (Value × Array α)) : Ascends (Value.inOrder entries) := by
  rw [Ascends, Value.inOrder, List.pairwise_map]
  refine List.pairwise_mergeSort ?_ ?_ entries
  · exact fun a b c => Value.precedes_trans
  · exact fun a b => Value.precedes_total a.1 b.1

theorem ascends_groups (p : Postings α) : Ascends p.groups := ascends_inOrder p.entries

/-- What is in the groups does not matter to their order. -/
theorem Ascends.map {groups : List (Value × List α)} (h : Ascends groups) (f : α → β) :
    Ascends (groups.map fun group => (group.1, group.2.map f)) := List.pairwise_map.2 h

/-- There is only one way to list the groups in order. -/
theorem Groups.eq_of_ascends {groups groups' : List (Value × List α)} {found : Value → List α}
    (h : Groups groups found) (h' : Groups groups' found) (hasc : Ascends groups)
    (hasc' : Ascends groups') : groups = groups' := by
  refine List.Perm.eq_of_pairwise ?_ hasc hasc' (h.perm h')
  rintro ⟨v, xs⟩ ⟨w, ys⟩ hv hw hvw hwv
  -- Groups of the same value are the same.
  obtain rfl : v = w := Value.precedes_antisymm hvw hwv
  rw [((h.mem_iff v xs).1 hv).1, ((h'.mem_iff v ys).1 hw).1]

end Postings

namespace Grouping

/-! ## Groups of items -/

/-- Items are grouped as they are recorded in postings that take all values. -/
theorem byValue_ofItems (items : List (Option Value × α)) :
    Postings.byValue (ofItems items) = .ofList none items := by
  have hstep (groups : Grouping α) (item : Option Value × α) :
      (Postings.byValue groups).addItem item = .byValue (groups.add item) := by
    obtain ⟨_ | v, x⟩ := item
    · rfl
    · exact Postings.add_byValue groups v x
  exact (List.foldl_hom Postings.byValue hstep).symm

/-- The groups have the items that came with each value. -/
theorem groups_listing (items : List (Option Value × α)) :
    Postings.Groups (ofItems items).listing (Postings.under items) := by
  have hfound : Postings.found none items = Postings.under items :=
    Postings.found_eq_under fun _ _ _ hnone => absurd hnone nofun
  have hgroups := (Postings.lists_ofList none items).groups
  rwa [← byValue_ofItems, hfound] at hgroups

theorem ascends_listing (groups : Grouping α) : Postings.Ascends groups.listing :=
  Postings.ascends_inOrder groups.toList

end Grouping

end ColumnStore
