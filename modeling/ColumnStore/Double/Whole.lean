import ColumnStore.Double.Round

/-!
# Doubles and whole numbers

The way from a double to a small integer: twice a double (`Double.twice`), the whole number
nearest to one (`Double.round`), the order of doubles (`Double.le`), and the signed byte of one
(`Double.toInt8`).
-/

namespace ColumnStore.Double

variable (x : Double)

/-- Neither infinite nor a NaN. -/
def isFinite : Bool := x.exponentBits ≠ 2047

/-- The double nearest to twice a double, which is exact but for an overflow to infinity. An
    infinity and a NaN stay what they are. -/
def twice : Double :=
  if !x.isFinite then x
  else if x.exponentBits = 0 then ofMagnitude x.isNegative (2 * x.fraction)
  else ofMagnitude x.isNegative (min ((x.exponentBits + 1) <<< 52 + x.fraction) infinityBits)

/-- The integer `⌊|x| * 2 ^ scale⌋` for a finite double. -/
def floorScaled (scale : Int) : Nat :=
  let p := x.power + scale
  if 0 ≤ p then x.significand <<< p.toNat else x.significand >>> (-p).toNat

/-- The whole number nearest to a double, of two equally near ones that farther from zero. It has
    the sign of the double, also if it is zero. An infinity and a NaN stay what they are, as do
    the doubles so large that they have no fraction. -/
def round : Double :=
  if !x.isFinite || 0 ≤ x.power then x
  else ofRatio x.isNegative ((x.floorScaled 1 + 1) / 2) 1

/-- The pattern as an integer of the same sign, which puts the doubles in order but for the
    NaNs. -/
def rank : Int :=
  let magnitude := x.bits.toNat % (1 <<< 63)
  if x.isNegative then -magnitude else magnitude

/-- One double is no greater than another. A NaN does not compare, and the two zeros are equal. -/
def le (x y : Double) : Bool := !x.isNaN && !y.isNaN && x.rank ≤ y.rank

/-- The signed byte that a double is without its fraction, the nearest one for what is beyond the
    bytes, and zero for a NaN. -/
def toInt8 : Int8 :=
  if x.isNaN then 0
  else
    let whole : Int := x.floorScaled 0
    .ofInt (max (-128) (min 127 (if x.isNegative then -whole else whole)))

end ColumnStore.Double
