import ColumnStore.PositionSet
import Mathlib.Data.Nat.Bitwise

/-!
# Sets of small positions have members

Putting a position into a set makes it a member, and no other position
(`PositionSet.contains_insert`), though the set has all of them in one word. So a set that is
filled item by item has just the positions of the items that were to be put into it
(`contains_foldl_insert_zipIdx`).
-/

namespace ColumnStore.PositionSet

variable {α : Type} {s : PositionSet} {i j : Nat}

/-- The word of one position is a power of two. -/
theorem toNat_shiftLeft (hi : i < capacity) : ((1 : UInt64) <<< UInt64.ofNat i).toNat = 2 ^ i := by
  have hlt : i < 64 := hi
  have hpow : 2 ^ i < 2 ^ 64 := Nat.pow_lt_pow_right (by decide) hlt
  rw [UInt64.toNat_shiftLeft, UInt64.toNat_ofNat_of_lt' (Nat.lt_trans hlt (by decide)),
    Nat.mod_eq_of_lt hlt, UInt64.toNat_one, Nat.one_shiftLeft, Nat.mod_eq_of_lt hpow]

theorem contains_empty : empty.contains i = false := by
  rw [contains, empty, UInt64.toNat_zero, Nat.zero_testBit, Bool.and_false]

theorem contains_of_isEmpty (h : s.isEmpty) (i : Nat) :
    s.contains i = false := by
  have hword : s.word = 0 := of_decide_eq_true h
  rw [contains, hword, UInt64.toNat_zero, Nat.zero_testBit, Bool.and_false]

/-- One more position is a member. -/
theorem contains_insert (hi : i < capacity) :
    (s.insert i).contains j = (decide (j = i) || s.contains j) := by
  rw [contains, insert, UInt64.toNat_or, toNat_shiftLeft hi, Nat.testBit_or, Nat.testBit_two_pow,
    contains]
  by_cases hj : j = i
  · subst hj
    simp [hi]
  · simp [hj, Ne.symm hj]

/-- The members of a set into which the positions of some items are put. -/
theorem contains_foldl_insert (puts : α → Bool) {items : List (α × Nat)}
    (hitems : ∀ item ∈ items, item.2 < capacity) (s : PositionSet) :
    (items.foldl (fun s (a, i) => if puts a then s.insert i else s) s).contains j
      = (s.contains j || items.any fun item => decide (j = item.2) && puts item.1) := by
  induction items generalizing s with
  | nil => exact (Bool.or_false _).symm
  | cons item rest ih =>
    obtain ⟨a, i⟩ := item
    obtain ⟨hi, hrest⟩ := List.forall_mem_cons.1 hitems
    rw [List.foldl_cons, ih hrest, List.any_cons]
    dsimp only
    cases puts a with
    | false => simp
    | true => rw [if_pos rfl, contains_insert hi, Bool.and_true, Bool.or_assoc, Bool.or_left_comm]

/-- Of a list whose first item has position 1, the position of an item is a member if it was to be
    put into the set. -/
theorem contains_foldl_insert_zipIdx (puts : α → Bool) {items : List α}
    (hlength : items.length < capacity) (i : Nat) :
    ((items.zipIdx 1).foldl (fun s (a, i) => if puts a then s.insert i else s) empty).contains
      (i + 1) = items[i]?.any puts := by
  have hlt (item : α × Nat) (hitem : item ∈ items.zipIdx 1) : item.2 < capacity := by
    obtain ⟨-, hitem⟩ := List.mk_mem_zipIdx_iff_le_and_getElem?_sub.1 hitem
    have := (List.getElem?_eq_some_iff.1 hitem).1
    omega
  rw [contains_foldl_insert puts hlt, contains_empty, Bool.false_or, Bool.eq_iff_iff,
    List.any_eq_true, Option.any_eq_true]
  simp only [Bool.and_eq_true, decide_eq_true_eq]
  constructor
  · rintro ⟨⟨a, j⟩, hmem, rfl, hputs⟩
    obtain ⟨-, ha⟩ := List.mk_mem_zipIdx_iff_le_and_getElem?_sub.1 hmem
    exact ⟨a, ha, hputs⟩
  · rintro ⟨a, ha, hputs⟩
    exact ⟨(a, i + 1), List.mk_mem_zipIdx_iff_le_and_getElem?_sub.2 ⟨Nat.le_add_left _ _, ha⟩, rfl,
      hputs⟩

end ColumnStore.PositionSet
