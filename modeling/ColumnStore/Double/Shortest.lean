import ColumnStore.Double.Basic

/-!
# The shortest decimal of a double

A double is written with the fewest decimal digits that read back to it, and of the decimals
of that length the one nearest to it, the larger of two equally near ones
(`Double.shortest`). The text is positional, without an exponent (`Double.text`).
-/

namespace ColumnStore

/-- The number `digits * 10 ^ exponent`. -/
structure Decimal where
  digits : Nat
  exponent : Int
deriving DecidableEq, Inhabited

namespace Decimal

/-- Moves the trailing zeros of the digits into the exponent, at most as many as `fuel`. -/
def trim : (fuel : Nat) → Decimal → Decimal
  | 0, x => x
  | fuel + 1, x =>
    if x.digits ≠ 0 ∧ x.digits % 10 = 0 then trim fuel ⟨x.digits / 10, x.exponent + 1⟩ else x

/-- Positional text: zeros fill the places between the digits and the point. -/
def text (x : Decimal) : String :=
  let digits := Nat.toDigits 10 x.digits
  if 0 ≤ x.exponent then
    .ofList (digits ++ List.replicate x.exponent.toNat '0')
  else
    let places := (-x.exponent).toNat
    let padded := List.replicate (places + 1 - digits.length) '0' ++ digits
    .ofList (padded.take (padded.length - places) ++ '.' :: padded.drop (padded.length - places))

end Decimal

namespace Double

/-- The reals that read back to a finite, nonzero double, and the double itself, over the
    common denominator `unit`: those between `low` and `high`, the two ends included exactly
    when the significand is even. -/
structure Interval where
  low : Nat
  value : Nat
  high : Nat
  unit : Nat
  closed : Bool

/-- The neighbours of a double are `2 ^ power` away, but for the one below a power of two,
    which is half as far; readers round to the nearer double and ties to the even one. -/
def interval (x : Double) : Interval :=
  let p := x.power - 2
  let m := 4 * x.significand
  let below := if x.fraction = 0 ∧ 1 < x.exponentBits then 1 else 2
  { low := (m - below) <<< p.toNat, value := m <<< p.toNat, high := (m + 2) <<< p.toNat,
    unit := 1 <<< (-p).toNat, closed := x.significand % 2 = 0 }

/-- `n` over a denominator lies in the interval over `unit`: all three ends are multiplied out. -/
def Interval.contains (i : Interval) (n d : Nat) : Bool :=
  let n := n * i.unit
  if i.closed then i.low * d ≤ n && n ≤ i.high * d else i.low * d < n && n < i.high * d

/-- The number of digits before the point of `value / unit`, zero or less when the first
    digits after the point are zeros. `fuel` bounds the search upwards from `e`. -/
def digitsBeforePoint (i : Interval) : (fuel : Nat) → Int → Int
  | 0, e => e
  | fuel + 1, e =>
    if i.value * Nat.pow 10 (-e).toNat < i.unit * Nat.pow 10 e.toNat then e
    else digitsBeforePoint i fuel (e + 1)

/-- Of the two multiples of `10 ^ e` next to the value the one that reads back and is nearer,
    the upper one on a tie. -/
def onGrid? (i : Interval) (e : Int) : Option Decimal :=
  let above := Nat.pow 10 e.toNat
  let below := Nat.pow 10 (-e).toNat
  let numerator := i.value * below
  let denominator := i.unit * above
  let f := numerator / denominator
  let down := i.contains (f * above) below
  let up := i.contains ((f + 1) * above) below
  let upNearer := denominator ≤ 2 * (numerator % denominator)
  if up && (upNearer || !down) then some ⟨f + 1, e⟩
  else if down then some ⟨f, e⟩
  else none

/-- The fewest digits that read back to a finite, nonzero double; seventeen always do. -/
def shortest (x : Double) : Decimal :=
  let i := x.interval
  let start := ((i.value.log2 : Int) - i.unit.log2) * 3 / 10 - 3
  let before := digitsBeforePoint i 16 start
  let grids := (List.range 17).map fun (k : Nat) => before - 1 - k
  ((grids.findSome? (onGrid? i)).getD default).trim 20

/-- A double in text: its shortest decimal, a sign also on negative zero, and words for the
    infinities and for what is no number. -/
def text (x : Double) : String :=
  if x.isNaN then "NaN"
  else
    let sign := if x.isNegative then "-" else ""
    if x.isInfinite then sign ++ "inf"
    else if x.significand = 0 then sign ++ "0"
    else sign ++ x.shortest.text

end Double

end ColumnStore
