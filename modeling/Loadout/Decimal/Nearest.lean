import Loadout.Decimal

/-!
# The double nearest to a decimal

A double is `m · 2 ^ q` with `m < 2 ^ 53` and `q ≥ -1074`.  The binary exponent `q` is chosen so
that `m` has 53 bits, unless `q` is already the smallest one; then the fraction is divided out
exactly, a half goes to the even neighbour, and a carry out of `m` lands in the exponent by itself
because mantissa and exponent are adjacent fields.
-/

namespace Loadout.Decimal

/-- The bits of infinity, which are the first bits beyond every finite double. -/
def infinityBits : Nat := 2047 * twoTo 52

/-- The quotient of a fraction rounded to a whole number, a half to the even neighbour. -/
def roundQuotient (num den : Nat) : Nat :=
  let q := num / den
  let r := num % den
  if 2 * r < den then q
  else if den < 2 * r then q + 1
  else q + q % 2

/-- The fraction `num / (den · 2 ^ q)` with whole numbers above and below. -/
def scaled (num den : Nat) (q : Int) : Nat × Nat :=
  if 0 ≤ q then (num, den * twoTo q.toNat) else (num * twoTo (-q).toNat, den)

/-- The binary exponent at which a positive fraction has a 53-bit whole part, but at least -1074. -/
def binaryExponent (num den : Nat) : Int :=
  let guess : Int := (num.log2 : Int) - (den.log2 : Int) - 52
  let (n, d) := scaled num den guess
  -- the logarithms leave the guess right or one too large
  let q := if n / d < twoTo 52 then guess - 1 else guess
  max q (-1074)

/-- The bits of the double nearest to a fraction; infinity's bits or more if it is too large. -/
def fractionBits (num den : Nat) : Nat :=
  if num = 0 then 0
  else
    let q := binaryExponent num den
    let (n, d) := scaled num den q
    (q + 1074).toNat * twoTo 52 + roundQuotient n d

/-- The bits of the double nearest to the decimal's magnitude, `none` beyond the largest double. -/
def magnitudeBits? (d : Decimal) : Option Nat :=
  -- exponents that settle the answer alone are set aside before any power is formed
  if d.digits = 0 then some 0
  else if 400 < d.exponent then none
  else if d.exponent < -(d.digits.log2 + 400 : Int) then some 0
  else
    let bits :=
      if 0 ≤ d.exponent then fractionBits (d.digits * tenTo d.exponent.toNat) 1
      else fractionBits d.digits (tenTo (-d.exponent).toNat)
    if bits < infinityBits then some bits else none

def isFinite (d : Decimal) : Bool := d.magnitudeBits?.isSome

/-- The double nearest to the decimal, infinite beyond the largest double. -/
def toFloat (d : Decimal) : Float :=
  let magnitude := Float.ofBits (UInt64.ofNat (d.magnitudeBits?.getD infinityBits))
  if d.negative then -magnitude else magnitude

end Loadout.Decimal
