import ColumnStore.Segment.Slots
import Mathlib.Data.List.Basic

/-!
# What slots hold after a write

The readers of slots, `size`, `get?` and `hasMask`, after each operation on them.

* A write fills its own slot. It changes no other slot that is there, and those that it skips
  stay absent (`get?_put`).
* So does taking a value out, but where there is no mask yet the skipped slots become present
  (`get?_clear`).
* A mask comes with the first gap that a write leaves, or the first value that is taken out
  (`hasMask_put`, `hasMask_clear`).
* Converting the payloads changes neither the size nor which slots are present (`get?_map`),
  and compacting changes nothing at all (`compact_eq`).
-/

namespace ColumnStore.Slots

variable {α β : Type} (s : Slots α)

/-- Without a mask all payloads can be read. -/
theorem get?_unmasked {data : Array α} {h} (k : Nat) :
    (⟨data, none, h⟩ : Slots α).get? k = data[k]? := by
  by_cases hk : k < data.size
  · simp [get?, isPresent, size, hk]
  · simp [get?, isPresent, size, hk]

/-- The mask holds back the payloads under absent slots. -/
theorem get?_masked {data : Array α} {m : Array Bool} {h} (k : Nat) :
    (⟨data, some m, h⟩ : Slots α).get? k = if m[k]? = some true then data[k]? else none := by
  have hm := h m rfl
  by_cases hk : k < data.size
  · have hk' : k < m.size := hm ▸ hk
    simp [get?, isPresent, size, hk, hk']
  · simp [get?, isPresent, size, hk]

/-- Past the end all slots are absent. -/
theorem get?_of_size_le {k : Nat} (hk : s.size ≤ k) : s.get? k = none := by
  obtain ⟨data, mask, h⟩ := s
  rw [size] at hk
  cases mask with
  | none => rw [get?_unmasked, Array.getElem?_eq_none hk]
  | some m => rw [get?_masked, Array.getElem?_eq_none hk, ite_self]

theorem isPresent_eq (k : Nat) : s.isPresent k = (s.get? k).isSome := by
  by_cases hp : s.isPresent k
  · have hk : k < s.data.size := by
      rw [isPresent, Bool.and_eq_true, decide_eq_true_eq] at hp
      exact hp.1
    rw [get?, if_pos hp, hp, Array.getElem?_eq_getElem hk, Option.isSome_some]
  · rw [get?, if_neg hp, Option.isSome_none, Bool.eq_false_iff.2 hp]

/-! ## Writing -/

section Write

variable [Inhabited α] (slot : Nat)

theorem size_put (x : α) : (s.put slot x).size = max s.size (slot + 1) := by
  obtain ⟨data, mask, h⟩ := s
  rw [put]
  split
  · simp only [size, Array.size_setIfInBounds]
    omega
  · simp only [size, Array.size_push, Array.size_append, Array.size_replicate]
    omega

/-- A write fills its slot. A gap before it, past the end, stays absent. -/
theorem get?_put (x : α) (k : Nat) :
    (s.put slot x).get? k = if k = slot then some x else s.get? k := by
  obtain ⟨data, mask, h⟩ := s
  rw [put]
  split
  · rename_i hslot
    cases mask with
    | none =>
      simp only [Option.map_none, get?_unmasked]
      grind
    | some m =>
      have hm := h m rfl
      simp only [Option.map_some, get?_masked]
      grind
  · rename_i hslot
    cases mask with
    | none =>
      by_cases hgap : slot - data.size = 0
      · simp only [hgap, get?_unmasked, decide_true, Option.isNone_none, Bool.and_self, if_true]
        grind
      · simp only [hgap, get?_unmasked, get?_masked, Option.isNone_none, Option.getD_none,
          decide_false, Bool.false_and, Bool.false_eq_true, if_false]
        grind
    | some m =>
      have hm := h m rfl
      simp only [get?_masked, Option.isNone_some, Option.getD_some, Bool.and_false,
        Bool.false_eq_true, if_false]
      grind

theorem size_clear : (s.clear slot).size = max s.size (slot + 1) := by
  obtain ⟨data, mask, h⟩ := s
  rw [clear]
  split
  · simp only [size]
    omega
  · simp only [size, Array.size_append, Array.size_replicate]
    omega

/-- Taking a value out empties its slot. A gap before it, past the end, stays absent only
    where there is a mask. -/
theorem get?_clear (k : Nat) :
    (s.clear slot).get? k = if k = slot then none
      else if s.size ≤ k ∧ k < slot ∧ s.hasMask = false then some default else s.get? k := by
  obtain ⟨data, mask, h⟩ := s
  rw [clear]
  split
  · rename_i hslot
    cases mask with
    | none =>
      simp only [Option.getD_none, get?_unmasked, get?_masked, hasMask, size]
      grind
    | some m =>
      have hm := h m rfl
      simp only [Option.getD_some, get?_masked, hasMask, size]
      grind
  · rename_i hslot
    cases mask with
    | none =>
      simp only [Option.elim_none, get?_unmasked, get?_masked, hasMask, size]
      grind
    | some m =>
      have hm := h m rfl
      simp only [Option.elim_some, get?_masked, hasMask, size]
      grind

/-- A mask comes with a gap. -/
theorem hasMask_put (x : α) : (s.put slot x).hasMask = (s.hasMask || decide (s.size < slot)) := by
  obtain ⟨data, mask, h⟩ := s
  rw [put]
  split
  · rename_i hslot
    have hgap : ¬data.size < slot := Nat.lt_asymm hslot
    simp only [hasMask, size, Option.isSome_map, hgap, decide_false, Bool.or_false]
  · rename_i hslot
    cases mask with
    | none =>
      have hgap : slot - data.size = 0 ↔ ¬data.size < slot := by omega
      by_cases hlt : data.size < slot
      · simp [hasMask, size, hgap, hlt]
      · simp [hasMask, size, hgap, hlt]
    | some m => simp [hasMask]

theorem hasMask_clear : (s.clear slot).hasMask = true := by
  obtain ⟨data, mask, h⟩ := s
  rw [clear]
  split <;> rfl

end Write

/-! ## Converting and compacting -/

theorem size_map (f : α → β) : (s.map f).size = s.size := Array.size_map

theorem hasMask_map (f : α → β) : (s.map f).hasMask = s.hasMask := rfl

theorem get?_map (f : α → β) (k : Nat) : (s.map f).get? k = (s.get? k).map f := by
  obtain ⟨data, mask, h⟩ := s
  cases mask with
  | none => simp only [map, get?_unmasked, Array.getElem?_map]
  | some m =>
    simp only [map, get?_masked, Array.getElem?_map]
    split <;> rfl

theorem compact_eq : s.compact = s := by
  obtain ⟨data, mask, h⟩ := s
  cases mask with
  | none => simp [compact]
  | some m => simp [compact]

end ColumnStore.Slots
