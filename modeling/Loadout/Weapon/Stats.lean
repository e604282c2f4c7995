import Loadout.Fault
import Loadout.Weapon.Setup

/-!
# Weapon stats

What a weapon with its setup brings to a build.  Everything downstream works from the stats alone.
-/

namespace Loadout

/-- What a weapon brings to a build. -/
structure WeaponStats where
  raw : Nat
  affinity : Int
  skill : Option SkillId
  bonus : Option BonusId
  /-- The decoration slots, largest first. -/
  slots : List Nat
  gauge : Option Gauge
  constantSharpness : Bool
  healthRegen : Bool
  element : Element
  deriving DecidableEq, Inhabited

namespace Upgrade

def raw : Upgrade → Nat
  | customAttack => 3
  | attack5 => 9
  | attack6 => 12
  | _ => 0

/-- The affinity that an awakening adds; custom affinity is counted in steps. -/
def affinity : Upgrade → Nat
  | affinity5 => 8
  | affinity6 => 10
  | _ => 0

/-- The hits that an upgrade adds to the top tier. -/
def hits : Upgrade → Nat
  | sharpness5 => 50
  | sharpness6 => 70
  | _ => 0

end Upgrade

namespace Setup

def augmentRaw : Nat := 5

def addedSlotSize : Nat := 1

/-- The affinity of stacked steps, the first of which is worth more than each later one. -/
def steppedAffinity : Nat → Nat
  | 0 => 0
  | n + 1 => 10 + 5 * n

def addedBy (upgrades : List Upgrade) (quantity : Upgrade → Nat) : Nat :=
  (upgrades.map quantity).foldr (· + ·) 0

def addedAffinity (s : Setup) : Nat :=
  steppedAffinity s.augments.affinity + addedBy s.upgrades Upgrade.affinity +
    steppedAffinity (s.upgrades.count .customAffinity)

def addedSlots (s : Setup) : List Nat :=
  (if 0 < s.augments.slot then [addedSlotSize] else []) ++
    (s.upgrades.filter Upgrade.isSlot).map fun _ => addedSlotSize

/-- The set bonus that a setup adds a piece of. -/
def addedBonus (s : Setup) : Option BonusId := (s.upgrades.filterMap Upgrade.bonus?).getLast?

def stats (w : Weapon) (s : Setup) : Except Fault WeaponStats := do
  let raw ← Fault.word
    (w.trueRaw + augmentRaw * s.augments.attack + addedBy s.upgrades Upgrade.raw)
  let affinity ← Fault.signed (w.affinity + s.addedAffinity)
  return {
    raw, affinity
    skill := w.skill
    bonus := s.addedBonus
    slots := descending (w.decoSlots ++ s.addedSlots)
    gauge := w.gauge.map fun g => g.addTop (addedBy s.upgrades Upgrade.hits)
    constantSharpness := w.constantSharpness
    healthRegen := 0 < s.augments.healthRegen
    element := w.element }

end Setup

/-- A weapon of the catalogue with its setup. -/
structure ConfiguredWeapon where
  weapon : Weapon
  setup : Setup
  deriving DecidableEq, Inhabited

def ConfiguredWeapon.stats (c : ConfiguredWeapon) : Except Fault WeaponStats :=
  c.setup.stats c.weapon

end Loadout
