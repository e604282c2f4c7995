import Loadout.Fault
import Loadout.Reckoning

/-!
# Consumables

Buffs that do not come from equipment.  Buffs of one exclusive group do not stack, and no buff
stacks with itself.
-/

namespace Loadout

structure BuffId where
  index : UInt16
  deriving DecidableEq, Hashable, Repr, Inhabited

def BuffId.ofIndex (n : Nat) : BuffId := ⟨UInt16.ofNat n⟩

structure Buff where
  id : String
  name : String
  addedRaw : Nat
  multiplier : Decimal
  group : Option String
  deriving DecidableEq, Repr, Inhabited

namespace Buff

/-- Whether two buffs exclude each other: by their groups if both have one, else by being the same.
-/
def clashes (a b : Buff) : Bool :=
  match a.group, b.group with
  | some g, some h => g = h
  | _, _ => a.id = b.id

def firstClash : List Buff → Option (Buff × Buff)
  | [] => none
  | b :: rest =>
      match rest.find? b.clashes with
      | some c => some (b, c)
      | none => firstClash rest

def addedRawOf (buffs : List Buff) : Except Fault Nat :=
  Fault.word ((buffs.map (·.addedRaw)).foldr (· + ·) 0)

/-- The factor of a list of buffs on raw attack. -/
def multiplierOf {R : Type} [Reckoning R] (buffs : List Buff) : R :=
  buffs.foldl (fun m b => m * Reckoning.ofDecimal b.multiplier) Reckoning.one

end Buff

/-- The buffs in effect with the raw attack they add together. -/
structure Consumables where
  ids : List BuffId
  buffs : List Buff
  addedRaw : Nat
  deriving DecidableEq, Inhabited

end Loadout
