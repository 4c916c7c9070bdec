import Mathlib.Data.List.Nodup

/-!
# Lists of items with different keys

Where no two items have one key, putting an item in the place of another is putting it wherever
there is the key of the other (`set_eq_map_key`), and it makes no difference to the items of other
keys (`mem_set_key`).
-/

namespace ColumnStore

variable {α : Type u} {κ : Type v} {key : α → κ} {items : List α} {i : Nat} {x y z : α}

theorem set_eq_map_key [DecidableEq κ] (hnodup : (items.map key).Nodup) (hx : items[i]? = some x) :
    items.set i y = items.map fun z => if key z = key x then y else z := by
  obtain ⟨hi, rfl⟩ := List.getElem?_eq_some_iff.1 hx
  refine List.ext_getElem (by rw [List.length_set, List.length_map]) fun j _ hj => ?_
  rw [List.length_map] at hj
  have hsame : key items[j] = key items[i] ↔ i = j := by
    constructor
    · intro heq
      exact (hnodup.of_map key).getElem_inj_iff.1
        (List.inj_on_of_nodup_map hnodup (List.getElem_mem hi) (List.getElem_mem hj) heq.symm)
    · rintro rfl
      rfl
  simp only [List.getElem_set, List.getElem_map, hsame]

theorem mem_set_key (hnodup : (items.map key).Nodup) (hx : items[i]? = some x) :
    z ∈ items.set i y ↔ z = y ∨ z ∈ items ∧ key z ≠ key x := by
  classical
  rw [set_eq_map_key hnodup hx, List.mem_map]
  constructor
  · rintro ⟨w, hw, rfl⟩
    split
    · exact .inl rfl
    · rename_i hne
      exact .inr ⟨hw, hne⟩
  · rintro (rfl | ⟨hz, hne⟩)
    · exact ⟨x, List.mem_of_getElem? hx, if_pos rfl⟩
    · exact ⟨z, hz, if_neg hne⟩

/-- An item of the same key leaves the keys as they are. -/
theorem map_set_key (hx : items[i]? = some x) (hkey : key y = key x) :
    (items.set i y).map key = items.map key := by
  obtain ⟨hi, rfl⟩ := List.getElem?_eq_some_iff.1 hx
  have hi' : i < (items.map key).length := by rwa [List.length_map]
  have hget : (items.map key)[i] = key y := by rw [List.getElem_map, hkey]
  rw [List.map_set, ← hget, List.set_getElem_self]

end ColumnStore
