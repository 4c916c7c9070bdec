import ColumnStore.Double.Whole
import Mathlib.Algebra.Order.Field.Rat
import Mathlib.Algebra.Order.Field.Power
import Mathlib.Tactic.Ring

/-!
# The values of doubles

A finite double has an exact value (`Double.toRat?`), a whole number of the least positive doubles
(`toRat?_eq_signedUnits`). That number has no other significand and power (`eq_of_units_eq`), so
that a double is known by its value, but for the sign of zero (`eq_of_toRat?_eq`). With negative
zero left out, it is known by its value alone (`eq_of_ne_negativeZero`).
-/

namespace ColumnStore.Double

variable {x y : Double}

/-! ## Fields -/

theorem isNegative_eq (x : Double) : x.isNegative = decide (x.bits.toNat / 2 ^ 63 % 2 = 1) :=
  Nat.testBit_eq_decide_div_mod_eq

theorem exponentBits_eq (x : Double) : x.exponentBits = x.bits.toNat / 2 ^ 52 % 2 ^ 11 := by
  rw [exponentBits, Nat.shiftRight_eq_div_pow, Nat.one_shiftLeft]

theorem fraction_eq (x : Double) : x.fraction = x.bits.toNat % 2 ^ 52 := by
  rw [fraction, Nat.one_shiftLeft]

/-- The three fields are all there is to a double. -/
theorem eq_of_fields (hsign : x.isNegative = y.isNegative)
    (hexponent : x.exponentBits = y.exponentBits) (hfraction : x.fraction = y.fraction) :
    x = y := by
  have hx : x.bits.toNat < 2 ^ 64 := x.bits.toNat_lt
  have hy : y.bits.toNat < 2 ^ 64 := y.bits.toNat_lt
  rw [isNegative_eq, isNegative_eq, decide_eq_decide] at hsign
  rw [exponentBits_eq, exponentBits_eq] at hexponent
  rw [fraction_eq, fraction_eq] at hfraction
  have hbits : x.bits.toNat = y.bits.toNat := by omega
  cases x
  cases y
  exact congrArg mk (UInt64.toNat_inj.1 hbits)

theorem fraction_lt (x : Double) : x.fraction < 2 ^ 52 :=
  fraction_eq x ▸ Nat.mod_lt _ (Nat.two_pow_pos 52)

theorem significand_lt (x : Double) : x.significand < 2 ^ 53 := by
  have := x.fraction_lt
  rw [significand, Nat.one_shiftLeft]
  split <;> omega

theorem le_significand (h : x.exponentBits ≠ 0) : 2 ^ 52 ≤ x.significand := by
  rw [significand, if_neg h, Nat.one_shiftLeft]
  exact Nat.le_add_right _ _

/-! ## Units -/

/-- How many of the least positive doubles the absolute value is. -/
def units (x : Double) : Nat := x.significand * 2 ^ (max x.exponentBits 1 - 1)

/-- With a smaller exponent there are fewer units. -/
theorem units_lt_units (h : max x.exponentBits 1 < max y.exponentBits 1) : x.units < y.units := by
  -- The larger exponent is that of a significand with its leading one.
  have hy : 2 ^ 52 ≤ y.significand := le_significand (by omega)
  calc x.units < 2 ^ 53 * 2 ^ (max x.exponentBits 1 - 1) :=
        Nat.mul_lt_mul_of_pos_right x.significand_lt (Nat.two_pow_pos _)
    _ = 2 ^ 52 * 2 ^ (max x.exponentBits 1 - 1 + 1) := by ring
    _ ≤ 2 ^ 52 * 2 ^ (max y.exponentBits 1 - 1) :=
        Nat.mul_le_mul_left _ (Nat.pow_le_pow_right (by decide) (by omega))
    _ ≤ y.units := Nat.mul_le_mul_right _ hy

/-- Doubles of one sign with the same number of units are one double. -/
theorem eq_of_units_eq (hsign : x.isNegative = y.isNegative) (h : x.units = y.units) : x = y := by
  have hexponent : max x.exponentBits 1 = max y.exponentBits 1 := by
    rcases Nat.lt_trichotomy (max x.exponentBits 1) (max y.exponentBits 1) with hlt | heq | hlt
    · exact absurd h (Nat.ne_of_lt (units_lt_units hlt))
    · exact heq
    · exact absurd h (Nat.ne_of_gt (units_lt_units hlt))
  have hsignificand : x.significand = y.significand := by
    rw [units, units, hexponent] at h
    exact Nat.eq_of_mul_eq_mul_right (Nat.two_pow_pos _) h
  have hx := x.fraction_lt
  have hy := y.fraction_lt
  rw [significand, significand, Nat.one_shiftLeft] at hsignificand
  refine eq_of_fields hsign ?_ ?_
  · split at hsignificand <;> split at hsignificand <;> omega
  · split at hsignificand <;> split at hsignificand <;> omega

/-! ## Values -/

/-- The exact value of a finite double. -/
def toRat? (x : Double) : Option ℚ :=
  if x.isFinite then some ((if x.isNegative then -1 else 1) * (x.significand * 2 ^ x.power))
  else none

/-- Negative zero. -/
def negativeZero : Double := ofMagnitude true 0

/-- The units with the sign of the double. -/
def signedUnits (x : Double) : Int := if x.isNegative then -x.units else x.units

/-- The least positive double. -/
def unit : ℚ := 2 ^ (-1074 : Int)

theorem unit_pos : 0 < unit := zpow_pos two_pos _

/-- The value of a finite double is a whole number of the least positive doubles. -/
theorem toRat?_eq_signedUnits (h : x.isFinite = true) : x.toRat? = some (x.signedUnits * unit) := by
  have hpower : x.power = (max x.exponentBits 1 - 1 : Nat) + (-1074 : Int) := by
    rw [power]
    omega
  have hunits : (x.significand : ℚ) * 2 ^ x.power = x.units * unit := by
    rw [hpower, zpow_add₀ two_ne_zero, zpow_natCast, ← unit, ← mul_assoc, units, Nat.cast_mul,
      Nat.cast_pow, Nat.cast_ofNat]
  rw [toRat?, if_pos h, hunits, signedUnits]
  split
  · rw [Int.cast_neg, Int.cast_natCast, neg_mul, neg_mul, one_mul]
  · rw [Int.cast_natCast, one_mul]

theorem toRat?_eq_some {q : ℚ} (h : x.toRat? = some q) :
    x.isFinite = true ∧ q = x.signedUnits * unit := by
  have hfinite : x.isFinite = true := by
    by_contra hnot
    rw [toRat?, if_neg hnot] at h
    cases h
  rw [toRat?_eq_signedUnits hfinite, Option.some_inj] at h
  exact ⟨hfinite, h.symm⟩

/-- A double is known by its value, but for the sign of zero. -/
theorem eq_of_toRat?_eq {q : ℚ} (hx : x.toRat? = some q) (hy : y.toRat? = some q)
    (hzero : q = 0 → x.isNegative = y.isNegative) : x = y := by
  obtain ⟨-, hq⟩ := toRat?_eq_some hx
  obtain ⟨-, hq'⟩ := toRat?_eq_some hy
  have hunits : x.signedUnits = y.signedUnits :=
    Int.cast_injective (mul_right_cancel₀ unit_pos.ne' (hq.symm.trans hq'))
  have hsign : x.isNegative = y.isNegative := by
    by_contra hne
    -- No number but zero has units of both signs.
    have hnone : x.signedUnits = 0 := by
      rw [signedUnits, signedUnits] at hunits
      rw [signedUnits]
      cases hxsign : x.isNegative <;> cases hysign : y.isNegative <;>
        simp only [hxsign, hysign, Bool.false_eq_true, if_true, if_false, not_true] at hne hunits ⊢
      · omega
      · omega
    exact hne (hzero (by rw [hq, hnone, Int.cast_zero, zero_mul]))
  refine eq_of_units_eq hsign ?_
  rw [signedUnits, signedUnits, hsign] at hunits
  split at hunits <;> omega

/-- No double of value zero is negative but negative zero. -/
theorem isNegative_eq_false (h : x.toRat? = some 0) (hx : x ≠ negativeZero) :
    x.isNegative = false := by
  obtain ⟨-, hzero⟩ := toRat?_eq_some h
  have hunits : x.signedUnits = 0 :=
    Int.cast_eq_zero.1 ((mul_eq_zero.1 hzero.symm).resolve_right unit_pos.ne')
  refine Bool.eq_false_iff.2 fun hsign => hx (eq_of_units_eq (hsign.trans (by decide)) ?_)
  rw [signedUnits, if_pos hsign] at hunits
  rw [Int.natCast_eq_zero.1 (Int.neg_eq_zero.1 hunits)]
  decide

/-- Two doubles of one value are one, unless one of them is negative zero. -/
theorem eq_of_ne_negativeZero {q : ℚ} (hx : x.toRat? = some q) (hy : y.toRat? = some q)
    (hxzero : x ≠ negativeZero) (hyzero : y ≠ negativeZero) : x = y := by
  refine eq_of_toRat?_eq hx hy ?_
  rintro rfl
  rw [isNegative_eq_false hx hxzero, isNegative_eq_false hy hyzero]

end ColumnStore.Double
