import ColumnStore.Proofs.PositionSet
import ColumnStore.Proofs.PositionSet.Listing
import Mathlib.Data.Finset.Card

/-!
# Sets of small positions as finite sets

A set is told by the positions that it contains (`eq_iff_contains`), and so are all its answers:
they are those of the finite set of these positions (`represents_iff`). Putting a position in and
taking one out do to the members what they do to a finite set (`Represents.apply`). So after any
changes the set is that of the positions which were put in and not taken out later
(`changed_represents`).
-/

namespace ColumnStore.PositionSet

variable {s t : PositionSet} {i j : Nat} {members others : Finset Nat}

/-! ## Single positions -/

theorem contains_eq_testBit (s : PositionSet) (i : Nat) :
    s.contains i = s.word.toNat.testBit i := by
  rw [contains, Bool.and_eq_right_iff_imp]
  exact fun h => decide_eq_true (lt_of_testBit h)

theorem lt_of_contains (h : s.contains i = true) : i < capacity :=
  of_decide_eq_true (Bool.and_eq_true_iff.1 h).1

/-- One position less is a member. -/
theorem contains_erase (hi : i < capacity) :
    (s.erase i).contains j = (decide (j ≠ i) && s.contains j) := by
  have hpow : 2 ^ i < 2 ^ 64 := Nat.pow_lt_pow_right (by decide) hi
  have hnot : UInt64.size - 1 - 2 ^ i = 2 ^ 64 - (2 ^ i + 1) :=
    (Nat.sub_right_comm _ _ _).trans (Nat.sub_sub _ _ _)
  rw [contains, erase, UInt64.toNat_and, UInt64.toNat_not, toNat_shiftLeft hi, hnot,
    Nat.testBit_and, Nat.testBit_two_pow_sub_succ hpow, Nat.testBit_two_pow, contains]
  by_cases hj : j = i
  · simp [hj]
  · by_cases hlt : j < capacity
    · have hlt' : j < 64 := hlt
      simp [hj, Ne.symm hj, hlt']
    · simp [hlt]

/-- Two sets with the same members have the same word. -/
theorem eq_iff_contains : s = t ↔ ∀ i, s.contains i = t.contains i := by
  constructor
  · rintro rfl i
    rfl
  · intro h
    have hword : s.word = t.word := UInt64.toNat_inj.1 <| Nat.eq_of_testBit_eq fun i => by
      rw [← contains_eq_testBit, ← contains_eq_testBit, h]
    cases s
    cases t
    exact congrArg mk hword

/-! ## All answers -/

/-- The set has the given members, whatever it is asked. -/
structure Represents (s : PositionSet) (members : Finset Nat) : Prop where
  lt_capacity : ∀ i ∈ members, i < capacity
  contains_iff : ∀ i, s.contains i = true ↔ i ∈ members
  isEmpty_iff : s.isEmpty = true ↔ members = ∅
  size_eq : s.size = members.card
  mem_toList : ∀ i, i ∈ s.toList ↔ i ∈ members
  /-- Each member is listed once. -/
  ascending : s.toList.Pairwise (· < ·)
  /-- However often an iterator is called, it gives what is listed, and after that nothing. -/
  answers_eq : ∀ calls, answers calls s.word = (List.range calls).map (s.toList[·]?)

/-- If a set tells the members rightly, all its other answers are right, too. -/
theorem represents_iff : s.Represents members ↔ ∀ i, s.contains i = true ↔ i ∈ members := by
  refine ⟨Represents.contains_iff, fun h => ?_⟩
  have hempty : s.isEmpty = true ↔ members = ∅ := by
    rw [Finset.eq_empty_iff_forall_notMem]
    constructor
    · intro hempty i hi
      exact Bool.false_ne_true ((contains_of_isEmpty hempty i).symm.trans ((h i).2 hi))
    · intro hnone
      have hs : s = empty := eq_iff_contains.2 fun i => by
        rw [contains_empty]
        exact Bool.eq_false_of_not_eq_true fun hi => hnone i ((h i).1 hi)
      rw [hs]
      rfl
  -- The size counts members below `capacity` only, but there are no others.
  have hmembers : ((List.range capacity).filter s.contains).toFinset = members := by
    ext i
    rw [List.mem_toFinset, List.mem_filter, List.mem_range, h]
    exact and_iff_right_of_imp fun hi => lt_of_contains ((h i).2 hi)
  refine ⟨fun i hi => lt_of_contains ((h i).2 hi), h, hempty, ?_, fun i => ?_,
    pairwise_bitPositions s.word, fun calls => answers_eq calls s.word⟩
  · calc s.size
        = ((List.range capacity).filter s.contains).length := List.countP_eq_length_filter
      _ = members.card := by
        rw [← hmembers, List.toFinset_card_of_nodup (List.nodup_range.filter _)]
  · rw [toList, mem_bitPositions, ← contains_eq_testBit, h]

theorem Represents.eq_iff (hs : s.Represents members) (ht : t.Represents others) :
    s = t ↔ members = others := by
  rw [eq_iff_contains, Finset.ext_iff]
  simp only [Bool.eq_iff_iff, hs.contains_iff, ht.contains_iff]

/-! ## Changes -/

/-- A change of a set. -/
inductive Change where
  | insert (i : Fin capacity)
  | erase (i : Fin capacity)
deriving DecidableEq

namespace Change

/-- Makes a change. -/
def apply : Change → PositionSet → PositionSet
  | insert i, s => s.insert i
  | erase i, s => s.erase i

/-- What a change does to the members. -/
def onMembers : Change → Finset Nat → Finset Nat
  | insert i, members => Insert.insert (i : Nat) members
  | erase i, members => members.erase i

end Change

/-- An empty set after some changes. -/
def changed (changes : List Change) : PositionSet :=
  changes.foldl (fun s c => c.apply s) empty

/-- No members after some changes. -/
def kept (changes : List Change) : Finset Nat :=
  changes.foldl (fun members c => c.onMembers members) ∅

theorem Represents.apply (h : s.Represents members) (c : Change) :
    (c.apply s).Represents (c.onMembers members) := by
  refine represents_iff.2 fun j => ?_
  cases c with
  | insert i =>
    rw [Change.apply, contains_insert i.isLt, Change.onMembers, Finset.mem_insert,
      Bool.or_eq_true, decide_eq_true_eq, h.contains_iff]
  | erase i =>
    rw [Change.apply, contains_erase i.isLt, Change.onMembers, Finset.mem_erase,
      Bool.and_eq_true, decide_eq_true_eq, h.contains_iff]

theorem Represents.foldl (h : s.Represents members) (changes : List Change) :
    (changes.foldl (fun s c => c.apply s) s).Represents
      (changes.foldl (fun members c => c.onMembers members) members) := by
  induction changes generalizing s members with
  | nil => exact h
  | cons c rest ih => exact ih (h.apply c)

theorem represents_kept (changes : List Change) :
    (changed changes).Represents (kept changes) :=
  (represents_iff.2 fun i => by simp [contains_empty] : empty.Represents ∅).foldl changes

/-- A change puts the position in, and none that comes later takes it out. -/
def StaysIn (i : Fin capacity) (changes : List Change) : Prop :=
  ∃ before after, changes = before ++ .insert i :: after ∧ .erase i ∉ after

theorem staysIn_nil {i : Fin capacity} : ¬StaysIn i [] := by
  rintro ⟨before, after, h, -⟩
  exact List.append_ne_nil_of_right_ne_nil before (List.cons_ne_nil _ _) h.symm

theorem staysIn_cons {i : Fin capacity} {c : Change} {rest : List Change} :
    StaysIn i (c :: rest) ↔ (c = .insert i ∧ .erase i ∉ rest) ∨ StaysIn i rest := by
  constructor
  · rintro ⟨before, after, h, hlast⟩
    rcases List.cons_eq_append_iff.1 h with ⟨-, h⟩ | ⟨before, -, h⟩
    · obtain ⟨rfl, rfl⟩ := List.cons.inj h
      exact .inl ⟨rfl, hlast⟩
    · exact .inr ⟨before, after, h, hlast⟩
  · rintro (⟨rfl, hlast⟩ | ⟨before, after, rfl, hlast⟩)
    · exact ⟨[], rest, rfl, hlast⟩
    · exact ⟨c :: before, after, rfl, hlast⟩

/-- A member stays one unless it is taken out, and any position becomes one that is put in to
    stay. -/
theorem mem_foldl_onMembers {changes : List Change} {i : Fin capacity} :
    (i : Nat) ∈ changes.foldl (fun members c => c.onMembers members) members ↔
      ((i : Nat) ∈ members ∧ .erase i ∉ changes) ∨ StaysIn i changes := by
  induction changes generalizing members with
  | nil => simp [staysIn_nil]
  | cons c rest ih =>
    -- What the first change makes a member is kept unless the rest takes it out.
    rw [List.foldl_cons, ih, staysIn_cons, List.mem_cons]
    cases c with
    | insert j =>
      have hmem : (i : Nat) ∈ (Change.insert j).onMembers members ↔
          j = i ∨ (i : Nat) ∈ members := by
        rw [Change.onMembers, Finset.mem_insert, Fin.val_inj, eq_comm]
      simp only [hmem, reduceCtorEq, false_or, Change.insert.injEq]
      tauto
    | erase j =>
      have hmem : (i : Nat) ∈ (Change.erase j).onMembers members ↔
          i ≠ j ∧ (i : Nat) ∈ members := by
        rw [Change.onMembers, Finset.mem_erase, Fin.val_ne_iff]
      simp only [hmem, reduceCtorEq, false_and, false_or, Change.erase.injEq]
      tauto

/-- After any changes, the set has the positions that were put in and not taken out later, and it
    tells them by every answer: membership, emptiness, size, the list of its members and the calls
    of an iterator. Two sets are equal if and only if they have the same members. -/
theorem changed_represents (changes : List Change) :
    (changed changes).Represents (kept changes) ∧
      (∀ i : Fin capacity, (i : Nat) ∈ kept changes ↔ StaysIn i changes) ∧
      ∀ others, changed changes = changed others ↔ kept changes = kept others := by
  refine ⟨represents_kept changes, fun i => ?_, fun others =>
    (represents_kept changes).eq_iff (represents_kept others)⟩
  rw [kept, mem_foldl_onMembers]
  simp

/-- The highest position is one like all others, and the iterator gives nothing after it. -/
example : answers 3 (changed [.insert ⟨63, by decide⟩, .insert ⟨5, by decide⟩,
    .insert ⟨0, by decide⟩, .erase ⟨5, by decide⟩]).word = [some 0, some 63, none] := by
  decide

end ColumnStore.PositionSet
