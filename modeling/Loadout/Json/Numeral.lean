import Loadout.Decimal

/-!
# Number literals

A literal is a sign, a whole part without a leading zero, and perhaps a fraction and an exponent.
It denotes a whole number only if it has neither and is not a negative zero; it denotes a decimal
always.
-/

namespace Loadout.Json

structure Numeral where
  negative : Bool
  whole : List Char
  fraction : Option (List Char)
  exponent : Option Int
  deriving DecidableEq

namespace Numeral

/-- The exponent behind the letter `e`: a sign if need be, then digits. -/
def exponent? : List Char → Option Int
  | '-' :: row => if row ≠ [] ∧ row.all Char.isDigit then some (-Decimal.digitsValue row) else none
  | '+' :: row => if row ≠ [] ∧ row.all Char.isDigit then some (Decimal.digitsValue row) else none
  | row => if row ≠ [] ∧ row.all Char.isDigit then some (Decimal.digitsValue row) else none

/-- What may follow the digits before an exponent: nothing or an exponent. -/
def afterDigits (negative : Bool) (whole : List Char) (fraction : Option (List Char)) :
    List Char → Option Numeral
  | [] => some ⟨negative, whole, fraction, none⟩
  | c :: rest =>
      if c = 'e' ∨ c = 'E' then
        (exponent? rest).map fun e => ⟨negative, whole, fraction, some e⟩
      else none

def unsigned? (negative : Bool) (cs : List Char) : Option Numeral :=
  let whole := cs.takeWhile Char.isDigit
  -- a zero leads only when it stands alone
  if whole = [] ∨ (whole.head? = some '0' ∧ whole ≠ ['0']) then none
  else
    match cs.dropWhile Char.isDigit with
    | '.' :: rest =>
        let fraction := rest.takeWhile Char.isDigit
        if fraction = [] then none
        else afterDigits negative whole (some fraction) (rest.dropWhile Char.isDigit)
    | rest => afterDigits negative whole none rest

def parse? (literal : List Char) : Option Numeral :=
  match literal with
  | '-' :: rest => unsigned? true rest
  | rest => unsigned? false rest

def integer? (n : Numeral) : Option Int :=
  match n.fraction, n.exponent with
  | none, none =>
      let magnitude := Decimal.digitsValue n.whole
      if n.negative then if magnitude = 0 then none else some (-magnitude) else some magnitude
  | _, _ => none

def decimal (n : Numeral) : Decimal :=
  let fraction := n.fraction.getD []
  ⟨n.negative, Decimal.digitsValue (n.whole ++ fraction), n.exponent.getD 0 - fraction.length⟩

end Numeral

end Loadout.Json
