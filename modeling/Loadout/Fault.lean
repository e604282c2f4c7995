/-!
# Faults of fixed-width arithmetic

Raw attack, affinity and damage are kept in 32-bit words, and a quantity that leaves its word is not
wrapped: the whole computation stops with a `Fault`.  The checked words below are the identity on
every quantity that fits, so a run without a fault has computed with plain numbers throughout.
-/

namespace Loadout

/-- Why a computation on words had to stop. -/
inductive Fault where
  | overflow
  /-- A number of steps is divided by an empty step. -/
  | emptyStep
  /-- A signature holds a key that its layout does not list. -/
  | unlisted
  deriving DecidableEq, Repr

namespace Fault

def wordMax : Nat := 4294967295

def signedMax : Int := 2147483647

def signedMin : Int := -2147483648

/-- An unsigned quantity, if it fits its word. -/
def word (n : Nat) : Except Fault Nat :=
  if n ≤ wordMax then .ok n else .error .overflow

/-- A signed quantity, if it fits its word. -/
def signed (n : Int) : Except Fault Int :=
  if signedMin ≤ n ∧ n ≤ signedMax then .ok n else .error .overflow

/-- How many steps of one size it takes to cover a distance. -/
def stepsOver (distance step : Nat) : Except Fault Nat :=
  if step = 0 then .error .emptyStep else .ok ((distance + step - 1) / step)

theorem word_eq_ok_iff {n m : Nat} : word n = .ok m ↔ m = n ∧ n ≤ wordMax := by
  unfold word
  split <;> grind

theorem signed_eq_ok_iff {n m : Int} :
    signed n = .ok m ↔ m = n ∧ signedMin ≤ n ∧ n ≤ signedMax := by
  unfold signed
  split <;> grind

end Fault

end Loadout
