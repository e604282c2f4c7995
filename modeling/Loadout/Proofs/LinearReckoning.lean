import Loadout.Reckoning.Exact
import Mathlib.Algebra.Order.Field.Rat

/-!
# Reckoning in a linear order

Statements about the best of several numbers need the order of the reckoning to be linear.  The
rationals have such an order; doubles have one as long as none of them is undefined.
-/

namespace Loadout

/-- Reckoning whose comparison is the strict part of a linear order. -/
class LinearReckoning (R : Type) [Reckoning R] [LinearOrder R] : Prop where
  less_eq_decide : ∀ a b : R, Reckoning.less a b = decide (a < b)

namespace Reckoning

variable {R : Type} [Reckoning R] [LinearOrder R] [LinearReckoning R]

theorem less_iff {a b : R} : Reckoning.less a b = true ↔ a < b := by
  rw [LinearReckoning.less_eq_decide, decide_eq_true_iff]

theorem larger_eq_max (a b : R) : Reckoning.larger a b = max a b := by
  unfold Reckoning.larger
  rw [LinearReckoning.less_eq_decide, max_def_lt]
  simp

end Reckoning

instance : LinearReckoning Rat where
  less_eq_decide _ _ := rfl

end Loadout
