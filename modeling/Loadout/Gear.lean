import Loadout.Catalogue
import Loadout.Damage.Effective

/-!
# Gear

An outfit is at most one piece of armour for each slot and perhaps a charm; decorations go into the
open slots of the outfit and the weapon.  Together they give the skill levels of a build: levels of
pieces, charm, decorations and the weapon's own skill first, then whatever the worn sets unlock.
-/

namespace Loadout

/-- The armour and the charm that are worn. -/
structure Outfit where
  worn : OrderedMap Slot PieceId
  charm : Option CharmId
  deriving DecidableEq, Inhabited

namespace Outfit

def bare : Outfit := ⟨∅, none⟩

def withCharm (charm : Option CharmId) : Outfit := ⟨∅, charm⟩

/-- Puts a piece on in its own slot, over whatever was worn there. -/
def put (c : Catalogue) (o : Outfit) (p : PieceId) : Outfit :=
  { o with worn := o.worn.insert (c.piece p).slot p }

def piece? (o : Outfit) (s : Slot) : Option PieceId := o.worn.get? s

/-- The pieces worn, head to legs. -/
def pieces (o : Outfit) : List PieceId := o.worn.entries.map (·.2)

/-- What the pieces and the charm grant, without set bonuses. -/
def grants (c : Catalogue) (o : Outfit) : List (SkillId × Nat) :=
  o.pieces.flatMap (fun p => (c.piece p).skills) ++
    (o.charm.map fun h => (c.charm h).grants).getD []

/-- The levels of the pieces and the charm, without set bonuses. -/
def levels (c : Catalogue) (o : Outfit) : SkillLevels := SkillLevels.gainAll c.skills ∅ (o.grants c)

def setPieces (c : Catalogue) (o : Outfit) : SetPieces :=
  .ofCounts ((o.pieces.filterMap fun p => (c.piece p).bonus).map (·, 1))

/-- The open slots of the pieces, largest first. -/
def slots (c : Catalogue) (o : Outfit) : List Nat :=
  descending (o.pieces.flatMap fun p => (c.piece p).decoSlots)

end Outfit

namespace Catalogue

def decorationLevels (c : Catalogue) (decorations : List DecorationId) : SkillLevels :=
  SkillLevels.gainAll c.skills ∅ (decorations.flatMap fun d => (c.decoration d).skills)

/-- Whether decorations can be put into slots: sorted alike, each is no larger than its slot. -/
def sizesFit (sizes slots : List Nat) : Bool :=
  -- putting the largest decoration into the largest slot never spoils a fit
  sizes.length ≤ slots.length && ((descending sizes).zip (descending slots)).all fun p => p.1 ≤ p.2

/-- Whether decorations fit the open slots of an outfit and a weapon. -/
def decorationsFit (c : Catalogue) (o : Outfit) (stats : WeaponStats)
    (decorations : List DecorationId) : Bool :=
  sizesFit (decorations.map fun d => (c.decoration d).slotSize) (o.slots c ++ stats.slots)

/-- The worn pieces of each set with the one that a weapon adds. -/
def gearPieces (c : Catalogue) (stats : WeaponStats) (o : Outfit) : SetPieces :=
  match stats.bonus with
  | some b => (o.setPieces c).wear b 1
  | none => o.setPieces c

def gearLevels (c : Catalogue) (stats : WeaponStats) (o : Outfit)
    (decorations : List DecorationId) : SkillLevels :=
  let worn := SkillLevels.merge c.skills (o.levels c) (c.decorationLevels decorations)
  let armed :=
    match stats.skill with
    | some s => SkillLevels.gain c.skills worn s 1
    | none => worn
  SkillLevels.grant c.skills armed (c.gearPieces stats o)

def gearEffective {R : Type} [Reckoning R] (c : Catalogue) (r : Requirements) (boost : Boost R)
    (weapon : ConfiguredWeapon) (o : Outfit) (decorations : List DecorationId) :
    Except Fault (Effective R) := do
  let stats ← weapon.stats
  Effective.ofLevels c.skills r boost weapon.weapon.weaponClass stats
    (c.gearLevels stats o decorations)

end Catalogue

end Loadout
