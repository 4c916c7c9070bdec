/-!
# Doubles

A double is kept as its 64-bit IEEE 754 pattern, and everything said of it is said in exact
integer arithmetic: a finite double has the absolute value `significand * 2 ^ power`.
-/

namespace ColumnStore

/-- A double, as its bit pattern. Two doubles are equal when all their bits are: a NaN equals
    itself, and the two zeros differ. -/
structure Double where
  /-- From the top: the sign, eleven bits of exponent, fifty-two bits of fraction. -/
  bits : UInt64
deriving DecidableEq, Hashable, Inhabited

namespace Double

/-- The magnitude bits of infinity: the largest exponent and no fraction. -/
def infinityBits : Nat := 2047 <<< 52

/-- The double with the given sign and the given lower 63 bits. -/
def ofMagnitude (negative : Bool) (magnitude : Nat) : Double :=
  ⟨.ofNat ((if negative then 1 <<< 63 else 0) + magnitude)⟩

/-- The infinity of the given sign. -/
def infinity (negative : Bool) : Double := ofMagnitude negative infinityBits

/-- The NaN of the given sign, with no more than its quiet bit. -/
def nan (negative : Bool) : Double := ofMagnitude negative (infinityBits + 1 <<< 51)

variable (x : Double)

/-- The sign bit is set. -/
def isNegative : Bool := x.bits.toNat.testBit 63

/-- The eleven bits of the exponent. -/
def exponentBits : Nat := (x.bits.toNat >>> 52) % (1 <<< 11)

/-- The fifty-two bits of the fraction. -/
def fraction : Nat := x.bits.toNat % (1 <<< 52)

/-- A double that is no number. -/
def isNaN : Bool := x.exponentBits = 2047 && x.fraction ≠ 0

/-- One of the two infinities. -/
def isInfinite : Bool := x.exponentBits = 2047 && x.fraction = 0

/-- The integer that `2 ^ power` scales: a leading one before the fraction, but for the
    subnormal doubles and the zeros. -/
def significand : Nat := if x.exponentBits = 0 then x.fraction else 1 <<< 52 + x.fraction

/-- The power of two that scales the significand. -/
def power : Int := (max x.exponentBits 1 : Nat) - 1075

/-- The machine number with this pattern. -/
def toFloat : Float := .ofBits x.bits

/-- The pattern of a machine number. -/
def ofFloat (x : Float) : Double := ⟨x.toBits⟩

end Double

end ColumnStore
