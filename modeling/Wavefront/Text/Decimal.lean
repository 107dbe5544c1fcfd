/-
# Decimals with two places

A finite non-negative binary64 value is a natural number times a power of two,
so its nearest multiple of a hundredth is a question about natural numbers.
`roundHalfEven` answers it: the nearest quotient, and of two equally near ones
the even one. `Decimal.twoPlaces` writes the answer.
-/

namespace Wavefront.Text

/-- The quotient nearest to `num / den`; a tie goes to the even neighbour. -/
def roundHalfEven (num den : Nat) : Nat :=
  let low := num / den
  let twice := 2 * (num % den)
  if twice < den then low
  else if den < twice then low + 1
  else if low % 2 = 0 then low else low + 1

/-- The value `mantissa * 2 ^ up / 2 ^ down` of a finite non-negative float. -/
structure Dyadic where
  mantissa : Nat
  up : Nat
  down : Nat

namespace Dyadic

/-- Decode the bits of a finite non-negative float. -/
def ofBits (bits : UInt64) : Dyadic :=
  let exponent := ((bits >>> 52) &&& 0x7ff).toNat
  let fraction := (bits &&& 0xfffffffffffff).toNat
  if exponent = 0 then ⟨fraction, 0, 1074⟩
  else if exponent < 1075 then ⟨0x10000000000000 + fraction, 0, 1075 - exponent⟩
  else ⟨0x10000000000000 + fraction, exponent - 1075, 0⟩

/-- The nearest number of hundredths, a tie going to the even one. -/
def hundredths (x : Dyadic) : Nat :=
  roundHalfEven (100 * (x.mantissa * Nat.pow 2 x.up)) (Nat.pow 2 x.down)

end Dyadic

/-- A number of hundredths with a point before its last two digits. -/
def pointed (hundredths : Nat) : String :=
  let cents := hundredths % 100
  toString (hundredths / 100) ++ "." ++ toString (cents / 10) ++ toString (cents % 10)

/-- A finite non-negative float with two decimal places. -/
def twoPlaces (x : Float) : String := pointed (Dyadic.ofBits x.toBits).hundredths

end Wavefront.Text
