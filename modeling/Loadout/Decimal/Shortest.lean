import Loadout.Decimal

/-!
# The shortest text of a double

Of all decimals that read back as a given double, the shortest is taken, and of the shortest the
one nearest to the double, the even one at a tie.  A decimal reads back exactly when it lies
between the midpoints to the neighbouring doubles, the midpoints included if the mantissa is even.
For each number of digits the two points of that grid around the double are the only candidates
worth testing: if any point of the grid lies in the interval, one of these two does.
-/

namespace Loadout.Decimal

/-- A positive finite double `mantissa · 2 ^ exponent`. -/
structure Binary where
  mantissa : Nat
  exponent : Int
  deriving DecidableEq, Repr

namespace Binary

def ofBits (bits : Nat) : Binary :=
  let biased : Nat := bits / twoTo 52
  let low : Nat := bits % twoTo 52
  if biased = 0 then ⟨low, -1074⟩ else ⟨low + twoTo 52, (biased : Int) - 1075⟩

/-- The value, and the bounds of what reads back as it, as numerators over one denominator. -/
structure Interval where
  lower : Nat
  value : Nat
  upper : Nat
  denominator : Nat
  closed : Bool

def interval (b : Binary) : Interval :=
  -- the neighbour below a power of two is half as far away as the one above
  let below := if b.mantissa = twoTo 52 ∧ b.exponent ≠ -1074 then 1 else 2
  let up := if 2 ≤ b.exponent then twoTo (b.exponent - 2).toNat else 1
  let den := if 2 ≤ b.exponent then 1 else twoTo (2 - b.exponent).toNat
  { lower := (4 * b.mantissa - below) * up
    value := 4 * b.mantissa * up
    upper := (4 * b.mantissa + 2) * up
    denominator := den
    closed := b.mantissa % 2 = 0 }

end Binary

open Binary

/-- The number `n · 10 ^ p` over the interval's denominator, both scaled by the returned factor. -/
def Binary.Interval.scaledPoint (i : Interval) (n : Nat) (p : Int) : Nat × Nat :=
  if 0 ≤ p then (n * tenTo p.toNat * i.denominator, 1)
  else (n * i.denominator, tenTo (-p).toNat)

/-- Whether `n · 10 ^ p` lies in the interval. -/
def Binary.Interval.holds (i : Interval) (n : Nat) (p : Int) : Bool :=
  let (x, f) := i.scaledPoint n p
  if i.closed then i.lower * f ≤ x && x ≤ i.upper * f
  else i.lower * f < x && x < i.upper * f

/-- The point of the grid of step `10 ^ p` at or below the value. -/
def Binary.Interval.gridFloor (i : Interval) (p : Int) : Nat :=
  if 0 ≤ p then i.value / (i.denominator * tenTo p.toNat)
  else i.value * tenTo (-p).toNat / i.denominator

/-- Whether the upper of two neighbouring grid points is the one to take. -/
def Binary.Interval.prefersUpper (i : Interval) (n : Nat) (p : Int) : Bool :=
  let (x, f) := i.scaledPoint n p
  let (y, _) := i.scaledPoint (n + 1) p
  let down := i.value * f - x
  let up := y - i.value * f
  if down = up then n % 2 = 1 else up < down

/-- The grid point that reads back, if the grid has one. -/
def Binary.Interval.gridPoint? (i : Interval) (p : Int) : Option Nat :=
  let n := i.gridFloor p
  match i.holds n p, i.holds (n + 1) p with
  | true, true => some (if i.prefersUpper n p then n + 1 else n)
  | true, false => some n
  | false, true => some (n + 1)
  | false, false => none

/-- The least `k` with the value below `10 ^ k`, sought downwards from a bound. -/
def Binary.Interval.decimalTop (i : Interval) : Nat → Int → Int
  | 0, k => k
  | fuel + 1, k =>
      let (x, f) := i.scaledPoint 1 (k - 1)
      if i.value * f < x then i.decimalTop fuel (k - 1) else k

/-- Searches the grids of 1, 2, … 17 digits; the last one always has a point. -/
def Binary.Interval.search (i : Interval) (top : Int) : Nat → Nat → Nat × Int
  | 0, _ => (0, 0)
  | fuel + 1, places =>
      let p := top - places
      match i.gridPoint? p with
      | some n => (n, p)
      | none => i.search top fuel (places + 1)

/-- The digits `n` and exponent `p` of the shortest decimal `n · 10 ^ p` of a positive double. -/
def shortestDigits (b : Binary) : Nat × Int :=
  let i := b.interval
  let guess : Int := ((b.mantissa.log2 : Int) + b.exponent + 1) * 30103 / 100000 + 2
  i.search (i.decimalTop 4 guess) 17 1

/-- Rows of `n` zeros. -/
def zeros (n : Nat) : String := String.ofList (List.replicate n '0')

/-- Where a float's text is positional and how its exponent is written: up to sixteen places before
the point, down to five after it, one decimal at least, and a signed exponent otherwise. -/
def layout (digits : String) (p : Int) : String :=
  let places := digits.length
  let point : Int := places + p
  let exponent := (if 0 < point then "e+" else "e") ++ toString (point - 1)
  if 0 ≤ p ∧ point ≤ 16 then digits ++ zeros p.toNat ++ ".0"
  else if 0 < point ∧ point ≤ 16 then
    (digits.take point.toNat).toString ++ "." ++ (digits.drop point.toNat).toString
  else if -5 < point ∧ point ≤ 0 then "0." ++ zeros (-point).toNat ++ digits
  else if places = 1 then digits ++ exponent
  else (digits.take 1).toString ++ "." ++ (digits.drop 1).toString ++ exponent

/-- The digits of a number without the zeros at its end, and how many there were. -/
def stripZeros : Nat → Nat → Int → Nat × Int
  | 0, n, p => (n, p)
  | fuel + 1, n, p => if n ≠ 0 ∧ n % 10 = 0 then stripZeros fuel (n / 10) (p + 1) else (n, p)

def shortestText (x : Float) : String :=
  let bits := x.toBits.toNat
  let magnitude := bits % twoTo 63
  let sign := if twoTo 63 ≤ bits then "-" else ""
  if magnitude = 0 then sign ++ "0.0"
  else
    let (n, p) := shortestDigits (Binary.ofBits magnitude)
    let (n, p) := stripZeros 20 n p
    sign ++ layout (toString n) p

end Loadout.Decimal
