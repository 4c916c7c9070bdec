import ColumnStore.Double.Basic

/-!
# Rounding to a double

The double nearest to an exact fraction, a tie going to the even significand
(`Double.ofRatio`), and with it the doubles of integers and of decimal numbers.
-/

namespace ColumnStore

/-- The integer nearest to `n / d`, a tie going to the even one. -/
def divNearestEven (n d : Nat) : Nat :=
  let q := n / d
  let r := n % d
  if 2 * r < d then q
  else if d < 2 * r then q + 1
  else q + q % 2

namespace Double

/-- The largest `e` with `2 ^ e ≤ n / d`, for positive `n` and `d`. -/
def floorLog2 (n d : Nat) : Int :=
  let e : Int := (n.log2 : Int) - d.log2
  if d <<< e.toNat ≤ n <<< (-e).toNat then e else e - 1

/-- The double nearest to `± n / d`, a tie going to the even significand; beyond the largest
    double it is infinity. The significands of one power of two follow those of the power
    below in the order of the patterns, so a significand rounded up to `2 ^ 53` carries into
    the exponent by itself. -/
def ofRatio (negative : Bool) (n d : Nat) : Double :=
  if n = 0 then ofMagnitude negative 0
  else
    let p := max (floorLog2 n d - 52) (-1074)
    let significand := divNearestEven (n <<< (-p).toNat) (d <<< p.toNat)
    ofMagnitude negative (min ((p + 1074).toNat <<< 52 + significand) infinityBits)

/-- The double nearest to an integer. -/
def ofInt (n : Int) : Double := ofRatio (n < 0) n.natAbs 1

/-- The double nearest to `± n * 10 ^ e`. Exponents so large or so small that the answer no
    longer hangs on them are not computed with. -/
def ofDecimal (negative : Bool) (n : Nat) (e : Int) : Double :=
  if n = 0 then ofMagnitude negative 0
  else if 310 ≤ e then infinity negative
  else if e + (n.log2 / 3 + 1 : Nat) < -330 then ofMagnitude negative 0
  else ofRatio negative (n * Nat.pow 10 e.toNat) (Nat.pow 10 (-e).toNat)

end Double

end ColumnStore
