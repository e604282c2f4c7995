import Loadout.Armour
import Loadout.Fault
import Loadout.Weapon

/-!
# Why a search cannot start

A search needs armour for every slot, decorations for the relevant skills and a weapon of the asked
class.  A fault of arithmetic on the way is kept apart from these.
-/

namespace Loadout

/-- Why a search has no answer, not even that it finds no build. -/
inductive SearchError where
  | emptySlot (slot : Slot)
  | noDecorations
  | noWeapons (weaponClass : WeaponClass)
  | fault (f : Fault)
  deriving DecidableEq, Repr

namespace SearchError

def message : SearchError → String
  | emptySlot slot => "no " ++ slot.name ++ " armour remains after filtering; allow more ranks"
  | noDecorations => "no decorations remain after filtering for the selected skills"
  | noWeapons weaponClass => "no " ++ weaponClass.name ++ " weapons remain after filtering"
  | fault _ => "arithmetic fault"

/-- A computation that may fault, as part of a search. -/
def ofFault {α : Type} : Except Fault α → Except SearchError α
  | .ok a => .ok a
  | .error f => .error (.fault f)

theorem ofFault_eq_ok_iff {α : Type} {run : Except Fault α} {a : α} :
    ofFault run = .ok a ↔ run = .ok a := by
  cases run with
  | ok b => simp [ofFault]
  | error f => simp [ofFault]

end SearchError

end Loadout
