import Loadout.Reckoning

/-!
# Exact reckoning

Over the rationals every operation is exact and only the step to a word rounds.
-/

namespace Loadout

def Decimal.toRat (d : Decimal) : Rat :=
  let magnitude : Rat :=
    if 0 ≤ d.exponent then (d.digits * tenTo d.exponent.toNat : Nat)
    else (d.digits : Rat) / (tenTo (-d.exponent).toNat : Nat)
  if d.negative then -magnitude else magnitude

/-- The nearest whole number of a word: a half goes up, and what is negative goes to zero. -/
def wordOfRat (x : Rat) : Nat := min (x + 1 / 2).floor.toNat 4294967295

instance : Reckoning Rat where
  ofInt n := n
  ofDecimal d := d.toRat
  less a b := a < b
  isZero a := a == 0
  toWord := wordOfRat

end Loadout
