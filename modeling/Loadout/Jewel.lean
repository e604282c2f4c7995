import Loadout.Armour

/-!
# Decorations and charms

A decoration goes into a slot of at least its size.  A charm is taken at its highest level, which it
grants for every skill it lists.
-/

namespace Loadout

open Std

structure DecorationId where
  index : UInt16
  deriving DecidableEq, Hashable, Repr, Inhabited

def DecorationId.ofIndex (n : Nat) : DecorationId := ⟨UInt16.ofNat n⟩

structure Decoration where
  id : String
  name : String
  slotSize : Nat
  skills : List (SkillId × Nat)
  deriving DecidableEq, Repr, Inhabited

/-- The levels of a skill that a decoration lists first. -/
def Decoration.levelOf (d : Decoration) (s : SkillId) : Nat :=
  ((d.skills.find? (·.1 = s)).map (·.2)).getD 0

structure CharmId where
  index : UInt16
  deriving DecidableEq, Hashable, Repr, Inhabited

def CharmId.ofIndex (n : Nat) : CharmId := ⟨UInt16.ofNat n⟩

structure Charm where
  id : String
  name : String
  maxLevel : Nat
  skills : List SkillId
  deriving DecidableEq, Repr, Inhabited

/-- The levels that a charm grants, once for every time it lists a skill. -/
def Charm.grants (c : Charm) : List (SkillId × Nat) := c.skills.map (·, c.maxLevel)

end Loadout
