import ColumnStore.Double.Whole

/-!
# Halves in a byte

The multiples of one half from -64 to 63.5 fit a signed byte that counts halves. Only the
exact pattern counts: negative zero has no byte (`Half.encode?`).
-/

namespace ColumnStore.Half

/-- The double `s / 2`. -/
def decode (s : Int8) : Double := .ofRatio (s < 0) s.toInt.natAbs 2

/-- The byte whose half is exactly `x`, bit for bit, if there is one. The halves in `x` are
    rounded to a whole number; where that is no byte, or is one whose half is another double,
    there is none. -/
def encode? (x : Double) : Option Int8 :=
  let halves := x.twice.round
  if (Double.ofInt (-128)).le halves && halves.le (.ofInt 127) then
    let s := halves.toInt8
    if decode s = x then some s else none
  else none

end ColumnStore.Half
