/-!
# Decimal numbers

A decimal keeps a written number exactly, so that no arithmetic is chosen before the number is used.
-/

namespace Loadout

/-- The number `± digits · 10 ^ exponent`; a negative zero stays negative. -/
structure Decimal where
  negative : Bool
  digits : Nat
  exponent : Int
  deriving DecidableEq, Repr

namespace Decimal

def ofNat (n : Nat) : Decimal := ⟨false, n, 0⟩

instance : Inhabited Decimal := ⟨ofNat 0⟩

def twoTo (n : Nat) : Nat := Nat.pow 2 n

def tenTo (n : Nat) : Nat := Nat.pow 10 n

def digitsValue (row : List Char) : Nat := row.foldl (fun n c => 10 * n + (c.toNat - '0'.toNat)) 0

end Decimal

/-- A quantity as a document states it: a number, or a limit that no number reaches. -/
inductive Quantity where
  | decimal (value : Decimal)
  | infinite (negative : Bool)
  | undefined
  deriving DecidableEq, Repr

end Loadout
