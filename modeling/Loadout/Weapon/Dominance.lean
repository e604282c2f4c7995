import Loadout.Weapon.Stats

/-!
# Dominance of weapons

One weapon dominates another if it is never worse in any build: at least as much raw attack and
affinity, slots that hold whatever the other's hold, the other's skill and set bonus if it has any,
and nothing of use that only the other has.
-/

namespace Loadout.WeaponStats

/-- Whether slots, both largest first, are at least as many and pairwise at least as large. -/
def slotsCover (mine theirs : List Nat) : Bool :=
  theirs.length ≤ mine.length && (mine.zip theirs).all fun p => p.2 ≤ p.1

/-- Whether something optional is there in the same way wherever the other weapon has it. -/
def matchesOption {α : Type} [DecidableEq α] (mine theirs : Option α) : Bool :=
  theirs.isNone || mine = theirs

/-- Whether a gauge is no worse than the other weapon's. -/
def gaugeCovers : Option Gauge → Option Gauge → Bool
  | _, none => true
  | none, some _ => false
  | some mine, some theirs => mine.covers theirs

/-- Whether a weapon is never worse than another; the element only counts as raw or not. -/
def dominates (a b : WeaponStats) : Bool :=
  b.raw ≤ a.raw && b.affinity ≤ a.affinity && slotsCover a.slots b.slots &&
    matchesOption a.skill b.skill && matchesOption a.bonus b.bonus &&
    (!b.healthRegen || a.healthRegen) && (!b.element.isRaw || a.element.isRaw) &&
    (!b.constantSharpness || a.constantSharpness) && gaugeCovers a.gauge b.gauge

end Loadout.WeaponStats
