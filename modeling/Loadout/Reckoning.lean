import Loadout.Decimal.Nearest

/-!
# Reckoning

Effective attack is reckoned with a handful of operations on numbers, the same in every arithmetic:
the program runs them on doubles, and its bounds are exact statements about the same formulas over
the rationals.  Whole numbers below 2 ^ 53 and quotients of two of them are the only constants, so a
double holds each constant as exactly as it can.
-/

namespace Loadout

/-- The operations with which damage is reckoned. -/
class Reckoning (R : Type) extends Add R, Sub R, Mul R, Div R where
  ofInt : Int → R
  ofDecimal : Decimal → R
  less : R → R → Bool
  isZero : R → Bool
  /-- The nearest whole number, halves away from zero, moved into the range of a word. -/
  toWord : R → Nat

namespace Reckoning

variable {R : Type} [Reckoning R]

def one : R := ofInt 1

def percent (n : Int) : R := ofInt n / ofInt 100

def larger (a b : R) : R := if less a b then b else a

/-- A stated quantity; what is beyond all numbers is left to division by zero. -/
def ofQuantity : Quantity → R
  | .decimal d => ofDecimal d
  | .infinite negative => ofInt (if negative then -1 else 1) / ofInt 0
  | .undefined => ofInt 0 / ofInt 0

end Reckoning

instance : Reckoning Float where
  ofInt n := Float.ofInt n
  ofDecimal d := d.toFloat
  less a b := a < b
  isZero a := a == 0.0
  toWord a := a.round.toUInt32.toNat

end Loadout
