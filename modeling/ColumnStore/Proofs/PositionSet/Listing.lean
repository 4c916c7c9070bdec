import ColumnStore.PositionSet
import ColumnStore.Proofs.Run
import Mathlib.Data.Nat.Bitwise

/-!
# The positions of a word, one by one

A word masked by the one before it has lost its lowest bit and nothing else
(`testBit_and_sub_one`). So the positions that are taken out of a word one after the other are those
of its bits, in ascending order (`mem_bitPositions`, `pairwise_bitPositions`), and when they are all
out, nothing is given any more (`answers_eq`).
-/

namespace ColumnStore.PositionSet

variable {n t i j : Nat} {word : UInt64}

/-! ## The lowest bit -/

/-- The bit is the lowest one of a number. -/
structure IsLowest (n t : Nat) : Prop where
  bit : n.testBit t = true
  below : ∀ j < t, n.testBit j = false

theorem IsLowest.half (h : IsLowest n (t + 1)) : IsLowest (n / 2) t where
  bit := n.testBit_succ t ▸ h.bit
  below j hj := n.testBit_succ j ▸ h.below (j + 1) (Nat.succ_lt_succ hj)

/-- A number masked by the one before it has lost its lowest bit only. -/
theorem testBit_and_sub_one (h : IsLowest n t) (j : Nat) :
    (n &&& (n - 1)).testBit j = (decide (j ≠ t) && n.testBit j) := by
  induction t generalizing n j with
  | zero =>
    -- The number is odd, so that the one before it differs in the first bit only.
    have hodd : n % 2 = 1 := by simpa using h.bit
    cases j with
    | zero =>
      have heven : (n - 1) % 2 = 0 := by omega
      simp [heven]
    | succ j =>
      have hhalf : (n - 1) / 2 = n / 2 := by omega
      rw [Nat.testBit_and, Nat.testBit_succ, Nat.testBit_succ, hhalf, Bool.and_self]
      simp
  | succ t ih =>
    -- The number is even, so that the half of the one before it is the one before its half.
    have heven : n % 2 = 0 := by simpa using h.below 0 t.succ_pos
    cases j with
    | zero => simp [heven]
    | succ j =>
      have hhalf : (n - 1) / 2 = n / 2 - 1 := by omega
      rw [Nat.testBit_and, Nat.testBit_succ, Nat.testBit_succ, hhalf, ← Nat.testBit_and, ih h.half]
      simp

/-- A search that has passed only bits that are not set finds the lowest one within its reach. -/
theorem isLowest_lowestBit {fuel : Nat} (hbelow : ∀ j < i, word.toNat.testBit j = false)
    (hbit : ∃ j < i + fuel, word.toNat.testBit j = true) :
    IsLowest word.toNat (lowestBit word fuel i) := by
  induction fuel generalizing i with
  | zero =>
    obtain ⟨j, hj, hbit⟩ := hbit
    rw [hbelow j hj] at hbit
    cases hbit
  | succ fuel ih =>
    rw [lowestBit]
    split
    · rename_i hi
      exact ⟨hi, hbelow⟩
    · rename_i hi
      refine ih (fun j hj => ?_) (by rwa [Nat.add_right_comm])
      rcases Nat.lt_succ_iff_lt_or_eq.1 hj with hlt | rfl
      · exact hbelow j hlt
      · exact Bool.eq_false_of_not_eq_true hi

/-- A word has no bits from `capacity` on. -/
theorem lt_of_testBit (h : word.toNat.testBit i = true) : i < capacity := by
  refine Nat.lt_of_not_le fun hle => ?_
  have hlt : word.toNat < 2 ^ i :=
    Nat.lt_of_lt_of_le word.toNat_lt (Nat.pow_le_pow_right Nat.two_pos hle)
  rw [Nat.testBit_lt_two_pow hlt] at h
  cases h

/-- Of a word with any bits the lowest position is taken out, and all others stay. -/
theorem takeLowest_of_ne_zero (h : word ≠ 0) :
    ∃ t rest, takeLowest word = (some t, rest) ∧ IsLowest word.toNat t ∧
      ∀ j, rest.toNat.testBit j = (decide (j ≠ t) && word.toNat.testBit j) := by
  have hpos : word.toNat ≠ 0 := fun h0 => h (UInt64.toNat_inj.1 h0)
  have hlowest : IsLowest word.toNat (lowestBit word capacity 0) := by
    obtain ⟨j, hbit⟩ := Nat.exists_testBit_of_ne_zero hpos
    exact isLowest_lowestBit nofun ⟨j, by rw [Nat.zero_add]; exact lt_of_testBit hbit, hbit⟩
  refine ⟨_, _, by rw [takeLowest, if_neg h], hlowest, fun j => ?_⟩
  have hone : (1 : UInt64) ≤ word := UInt64.le_iff_toNat_le.2 (Nat.pos_of_ne_zero hpos)
  rw [UInt64.toNat_and, UInt64.toNat_sub_of_le _ _ hone, UInt64.toNat_one,
    testBit_and_sub_one hlowest]

/-! ## All bits -/

theorem takeLowest_zero : takeLowest 0 = (none, 0) := if_pos rfl

theorem bitPositions_zero : bitPositions 0 = [] := by
  rw [bitPositions, takeLowest_zero]

/-- The lowest position comes before the positions of what is left. -/
theorem bitPositions_of_takeLowest {rest : UInt64} (h : takeLowest word = (some t, rest)) :
    bitPositions word = t :: bitPositions rest := by
  rw [bitPositions]
  split
  · rename_i hnone
    rw [h] at hnone
    cases hnone
  · rename_i hsome
    rw [h] at hsome
    cases hsome
    rfl

/-- What holds of the word without bits, and of a word if it holds of what is left without the
    lowest bit, holds of all words. -/
theorem word_induction {P : UInt64 → Prop} (zero : P 0)
    (take : ∀ word rest t, takeLowest word = (some t, rest) → IsLowest word.toNat t →
      (∀ j, rest.toNat.testBit j = (decide (j ≠ t) && word.toNat.testBit j)) → P rest → P word)
    (word : UInt64) : P word := by
  induction hn : word.toNat using Nat.strongRecOn generalizing word with
  | ind n ih =>
    subst hn
    by_cases h : word = 0
    · exact h ▸ zero
    · obtain ⟨t, rest, htake, hlowest, hrest⟩ := takeLowest_of_ne_zero h
      exact take word rest t htake hlowest hrest (ih _ (takeLowest_lt htake) rest rfl)

theorem mem_bitPositions : i ∈ bitPositions word ↔ word.toNat.testBit i = true := by
  induction word using word_induction with
  | zero => simp [bitPositions_zero]
  | take word rest t htake hlowest hrest ih =>
    rw [bitPositions_of_takeLowest htake, List.mem_cons, ih, hrest]
    by_cases hi : i = t
    · simp [hi, hlowest.bit]
    · simp [hi]

theorem pairwise_bitPositions (word : UInt64) : (bitPositions word).Pairwise (· < ·) := by
  induction word using word_induction with
  | zero => simp [bitPositions_zero]
  | take word rest t htake hlowest hrest ih =>
    rw [bitPositions_of_takeLowest htake]
    -- What is left has no bits below the lowest one, and that one is out.
    refine List.pairwise_cons.2 ⟨fun j hj => ?_, ih⟩
    have hbit := mem_bitPositions.1 hj
    rw [hrest, Bool.and_eq_true, decide_eq_true_eq] at hbit
    refine Nat.lt_of_le_of_ne (Nat.le_of_not_lt fun hlt => ?_) (Ne.symm hbit.1)
    exact Bool.false_ne_true ((hlowest.below j hlt).symm.trans hbit.2)

/-- The first position is the one that is taken out, and the others are those of what is left. -/
theorem getElem?_bitPositions (word : UInt64) :
    (bitPositions word)[0]? = (takeLowest word).1 ∧
      ∀ k, (bitPositions word)[k + 1]? = (bitPositions (takeLowest word).2)[k]? := by
  by_cases h : word = 0
  · subst h
    rw [takeLowest_zero, bitPositions_zero]
    exact ⟨rfl, fun _ => rfl⟩
  · obtain ⟨t, rest, htake, -, -⟩ := takeLowest_of_ne_zero h
    rw [bitPositions_of_takeLowest htake, htake]
    exact ⟨rfl, fun _ => rfl⟩

/-- What the first calls give that each take the lowest position out of what the one before left
    of a word. -/
def answers (calls : Nat) (word : UInt64) : List (Option Nat) :=
  (run (fun _ : Unit => takeLowest) (List.replicate calls ()) word).1

/-- The calls give the positions of the word one after the other, and then nothing any more. -/
theorem answers_eq (calls : Nat) (word : UInt64) :
    answers calls word = (List.range calls).map ((bitPositions word)[·]?) := by
  induction calls generalizing word with
  | zero => rfl
  | succ calls ih =>
    obtain ⟨hfirst, hrest⟩ := getElem?_bitPositions word
    calc answers (calls + 1) word
        = (takeLowest word).1 :: answers calls (takeLowest word).2 := rfl
      _ = (bitPositions word)[0]? ::
            (List.range calls).map ((bitPositions word)[· + 1]?) := by
        rw [ih, hfirst]
        exact congrArg _ (List.map_congr_left fun k _ => (hrest k).symm)
      _ = (List.range (calls + 1)).map ((bitPositions word)[·]?) := by
        rw [List.range_succ_eq_map, List.map_cons, List.map_map]
        rfl

end ColumnStore.PositionSet
