import ColumnStore.Text.Blank
import ColumnStore.Text.Integer
import Mathlib.Data.List.TakeWhile
import Mathlib.Data.Nat.Digits.Defs

/-!
# Integers between blanks

What is left of a text without the blanks around it (`Strips`) is unique, and is what `trim` gives
(`trim_eq_iff`). A numeral (`Numeral`) is an optional sign and at least one decimal digit, with the
value that the digits have by their places; the numerals are what is read as an integer
(`readInteger?_eq_some_iff`), and integers are written as numerals (`numeral_toString`).

No character of a numeral is a blank (`Numeral.not_isBlank`), so that a numeral is what is left of
itself between blanks (`trim_pad`).
-/

namespace ColumnStore.Text

variable {s t before after digits : List Char} {n : Nat} {z : Int}

/-! ## Blanks -/

/-- A text neither begins nor ends with a blank. -/
structure Bare (t : List Char) : Prop where
  head : ∀ c ∈ t.head?, isBlank c = false
  last : ∀ c ∈ t.getLast?, isBlank c = false

/-- The second text is what is left of the first one without the blanks around it. -/
def Strips (s t : List Char) : Prop :=
  ∃ before after, s = before ++ t ++ after ∧ (∀ c ∈ before, isBlank c = true) ∧
    (∀ c ∈ after, isBlank c = true) ∧ Bare t

theorem bare_of_forall (h : ∀ c ∈ t, isBlank c = false) : Bare t where
  head c hc := h c (List.mem_of_mem_head? hc)
  last c hc := h c (List.mem_of_mem_getLast? hc)

/-- Blanks are dropped up to the first other character. -/
theorem dropWhile_isBlank_append (hbefore : ∀ c ∈ before, isBlank c = true)
    (ht : ∀ c ∈ t.head?, isBlank c = false) : (before ++ t).dropWhile isBlank = t := by
  rw [List.dropWhile_append_of_pos hbefore]
  cases t with
  | nil => rfl
  | cons c t => exact List.dropWhile_cons_of_neg (by simp [ht c rfl])

theorem trim_pad (hbefore : ∀ c ∈ before, isBlank c = true) (hafter : ∀ c ∈ after, isBlank c = true)
    (ht : Bare t) : trim (before ++ t ++ after) = t := by
  rw [trim]
  cases t with
  | nil =>
    -- There are only blanks, and they are all dropped from the front.
    have hall : ∀ c ∈ before ++ [] ++ after, isBlank c = true := by
      simpa [or_imp, forall_and] using ⟨hbefore, hafter⟩
    rw [List.dropWhile_eq_nil_iff.2 hall]
    rfl
  | cons c rest =>
    have hfront : (before ++ c :: rest ++ after).dropWhile isBlank = c :: rest ++ after := by
      rw [List.append_assoc]
      exact dropWhile_isBlank_append hbefore ht.head
    have hback :
        (after.reverse ++ (c :: rest).reverse).dropWhile isBlank = (c :: rest).reverse := by
      refine dropWhile_isBlank_append (fun d hd => hafter d (List.mem_reverse.1 hd)) ?_
      rw [List.head?_reverse]
      exact ht.last
    rw [hfront, List.reverse_append, hback, List.reverse_reverse]

theorem head_dropWhile_isBlank (s : List Char) :
    ∀ c ∈ (s.dropWhile isBlank).head?, isBlank c = false := by
  intro c hc
  have hhead := List.head?_dropWhile_not isBlank s
  rwa [hc] at hhead

theorem strips_trim (s : List Char) : Strips s (trim s) := by
  obtain ⟨after, hafter, hrest⟩ : ∃ after, (∀ c ∈ after, isBlank c = true) ∧
      s.dropWhile isBlank = trim s ++ after := by
    refine ⟨((s.dropWhile isBlank).reverse.takeWhile isBlank).reverse,
      fun c hc => List.mem_takeWhile_imp (List.mem_reverse.1 hc), ?_⟩
    rw [trim, ← List.reverse_append, List.takeWhile_append_dropWhile, List.reverse_reverse]
  refine ⟨s.takeWhile isBlank, after, ?_, fun c => List.mem_takeWhile_imp, hafter, ?_, ?_⟩
  · rw [List.append_assoc, ← hrest, List.takeWhile_append_dropWhile]
  · -- The text without the blanks at its end begins as it does with them.
    intro c hc
    refine head_dropWhile_isBlank s c ?_
    rw [hrest, List.head?_append, Option.mem_def.1 hc]
    rfl
  · rw [trim, List.getLast?_reverse]
    exact head_dropWhile_isBlank _

/-- A text has just one that is left without the blanks around it. -/
theorem trim_eq_iff : trim s = t ↔ Strips s t := by
  constructor
  · rintro rfl
    exact strips_trim s
  · rintro ⟨before, after, rfl, hbefore, hafter, ht⟩
    exact trim_pad hbefore hafter ht

/-! ## Numerals -/

/-- At least one decimal digit, the most significant first, and the number that they write. -/
structure Digits (digits : List Char) (n : Nat) : Prop where
  ne_nil : digits ≠ []
  isDigit : ∀ c ∈ digits, c.isDigit = true
  value : Nat.ofDigits 10 (digits.reverse.map fun c => c.toNat - '0'.toNat) = n

/-- A decimal numeral and its value: digits with no more than one sign before them. -/
inductive Numeral : List Char → Int → Prop
  | unsigned {digits : List Char} {n : Nat} : Digits digits n → Numeral digits n
  | plus {digits : List Char} {n : Nat} : Digits digits n → Numeral ('+' :: digits) n
  | minus {digits : List Char} {n : Nat} : Digits digits n → Numeral ('-' :: digits) (-n)

/-- The value goes by the places of the digits. -/
theorem digitsValue_eq (digits : List Char) :
    digitsValue digits = Nat.ofDigits 10 (digits.reverse.map fun c => c.toNat - '0'.toNat) := by
  rw [Nat.ofDigits_eq_foldr, List.foldr_map, List.foldr_reverse, digitsValue]
  simp [Nat.add_comm]

theorem digits_iff : Digits digits n ↔
    (digits ≠ [] ∧ digits.all Char.isDigit = true) ∧ digitsValue digits = n := by
  rw [digitsValue_eq, List.all_eq_true]
  exact ⟨fun h => ⟨⟨h.ne_nil, h.isDigit⟩, h.value⟩, fun h => ⟨h.1.1, h.1.2, h.2⟩⟩

theorem readInteger?_eq_some_iff_digits : readInteger? s = some z ↔
    ∃ n : Nat, Digits (splitSign s).2 n ∧ (if (splitSign s).1 then -(n : Int) else n) = z := by
  rw [readInteger?]
  simp [digits_iff]

theorem splitSign_cases (s : List Char) :
    (∃ rest, s = '-' :: rest) ∨ (∃ rest, s = '+' :: rest) ∨ splitSign s = (false, s) := by
  unfold splitSign
  split
  · exact .inl ⟨_, rfl⟩
  · exact .inr (.inl ⟨_, rfl⟩)
  · exact .inr (.inr rfl)

/-- Digits are not taken for a sign. -/
theorem splitSign_of_digits (h : Digits digits n) : splitSign digits = (false, digits) := by
  rcases splitSign_cases digits with ⟨rest, rfl⟩ | ⟨rest, rfl⟩ | hsplit
  · exact absurd (h.isDigit '-' List.mem_cons_self) (by decide)
  · exact absurd (h.isDigit '+' List.mem_cons_self) (by decide)
  · exact hsplit

/-- The numerals are what is read as an integer, each as its value. -/
theorem readInteger?_eq_some_iff : readInteger? s = some z ↔ Numeral s z := by
  rw [readInteger?_eq_some_iff_digits]
  constructor
  · rintro ⟨n, hdigits, rfl⟩
    rcases splitSign_cases s with ⟨rest, rfl⟩ | ⟨rest, rfl⟩ | hsplit
    · exact .minus hdigits
    · exact .plus hdigits
    · rw [hsplit] at hdigits ⊢
      exact .unsigned hdigits
  · rintro (⟨h⟩ | ⟨h⟩ | ⟨h⟩)
    · rw [splitSign_of_digits h]
      exact ⟨_, h, rfl⟩
    · exact ⟨_, h, rfl⟩
    · exact ⟨_, h, rfl⟩

/-! ## Writing -/

theorem digits_toDigits (n : Nat) : Digits (Nat.toDigits 10 n) n := by
  refine digits_iff.2 ⟨⟨Nat.toDigits_ne_nil, List.all_eq_true.2 fun c hc => ?_⟩, ?_⟩
  · exact Nat.isDigit_of_mem_toDigits (by decide) (by decide) hc
  · exact Nat.ofDigitChars_toDigits (by decide) (by decide)

/-- An integer is written as a numeral of it. -/
theorem numeral_toString (z : Int) : Numeral (toString z).toList z := by
  rw [Int.toString_eq_repr, Int.repr_eq_if]
  split
  · rename_i hz
    have hnumeral := Numeral.unsigned (digits_toDigits z.toNat)
    rw [Int.toNat_of_nonneg hz] at hnumeral
    rwa [Nat.toList_repr]
  · rename_i hz
    have hnumeral := Numeral.minus (digits_toDigits (-z).toNat)
    rw [Int.toNat_of_nonneg (by omega), Int.neg_neg] at hnumeral
    rwa [String.toList_append, Nat.toList_repr]

theorem isBlank_of_isDigit {c : Char} (h : c.isDigit = true) : isBlank c = false := by
  have hrange : 48 ≤ c.toNat ∧ c.toNat ≤ 57 := Char.isDigit_iff_toNat.1 h
  simp only [isBlank, Bool.or_eq_false_iff, Bool.and_eq_false_iff, decide_eq_false_iff_not]
  omega

theorem Digits.not_isBlank (h : Digits digits n) : ∀ c ∈ digits, isBlank c = false :=
  fun c hc => isBlank_of_isDigit (h.isDigit c hc)

theorem Numeral.not_isBlank (h : Numeral s z) : ∀ c ∈ s, isBlank c = false := by
  cases h with
  | unsigned h => exact h.not_isBlank
  | plus h => exact List.forall_mem_cons.2 ⟨by decide, h.not_isBlank⟩
  | minus h => exact List.forall_mem_cons.2 ⟨by decide, h.not_isBlank⟩

end ColumnStore.Text
