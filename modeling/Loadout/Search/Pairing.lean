import Loadout.Search.ArmourSet
import Loadout.Search.Candidate

/-!
# Pairing a set with a weapon

An armour set and a weapon give one build for every way to fill the weapon's slots, as far as the
build stays within the cutoffs and reaches every minimum.  Of these the first one with the highest
effective raw attack counts.
-/

namespace Loadout

/-- What every pairing of a search works with. -/
structure Setting (R : Type) where
  skills : SkillTable
  requirements : Requirements
  boost : Boost R
  decorations : List UsefulDecoration

structure Find (R : Type) where
  weapon : ConfiguredWeapon
  outfit : Outfit
  /-- The decorations of the armour, then those of the weapon. -/
  decorations : List DecorationId
  /-- The relevant levels, those of set bonuses included. -/
  levels : SkillLevels
  pieces : SetPieces
  effective : Effective R

/-- Whether a number exceeds a bar, if there is one. -/
def exceeds {R : Type} [Reckoning R] (bar : Option R) (x : R) : Bool :=
  match bar with
  | none => true
  | some b => Reckoning.less b x

namespace Find

variable {R : Type} [Reckoning R]

/-- The first of the finds with the highest effective raw attack, if it exceeds a bar. -/
def bestAbove (bar : Option R) : List (Find R) → Option (Find R)
  | [] => none
  | f :: rest =>
      if exceeds bar f.effective.raw then
        some ((bestAbove (some f.effective.raw) rest).getD f)
      else bestAbove bar rest

end Find

namespace Setting

variable {R : Type} [Reckoning R]

def ofRequest (c : Catalogue) (q : Request) (useful : List UsefulDecoration) : Setting R :=
  ⟨c.skills, q.requirements, q.consumables.boost, useful⟩

/-- The worn pieces of each set with the one that a weapon adds. -/
def pairedPieces (set : ArmourSet) (w : Candidate R) : SetPieces :=
  match w.stats.bonus with
  | some b => set.signature.pieces.wear b 1
  | none => set.signature.pieces

def pairedLevels (x : Setting R) (set : ArmourSet) (w : Candidate R) : SkillLevels :=
  match w.stats.skill with
  | some s => SkillLevels.gain x.skills set.signature.levels s 1
  | none => set.signature.levels

/-- The build of a packing of the weapon's slots, if it reaches every minimum. -/
def find? (x : Setting R) (set : ArmourSet) (w : Candidate R) (p : Packing) :
    Except Fault (Option (Find R)) := do
  let pieces := pairedPieces set w
  let levels := x.requirements.restrictLevels (SkillLevels.grant x.skills p.levels pieces)
  if x.requirements.metBy levels then
    let effective ← Effective.ofLevels x.skills x.requirements x.boost w.weapon.weapon.weaponClass
      w.stats levels
    return some {
      weapon := w.weapon, outfit := set.outfit
      decorations := set.decorations ++ p.decorations
      levels, pieces, effective }
  else return none

/-- Every build of a set and a weapon that meets the request, all slots of the weapon filled. -/
def finds (x : Setting R) (set : ArmourSet) (w : Candidate R) : Except Fault (List (Find R)) :=
  if x.requirements.withinCutoffs (pairedPieces set w) then do
    let packings ← Packing.all x.skills x.decorations w.stats.slots (x.pairedLevels set w)
    return (← packings.mapM (x.find? set w)).filterMap id
  else .ok []

end Setting

end Loadout
