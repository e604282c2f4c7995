import Loadout.Buff
import Loadout.Jewel
import Loadout.Weapon

/-!
# The catalogue

All equipment, in tables.  Entries are found by id and then named by handle; a handle is the
position of its entry, cut to the width of the handle.
-/

namespace Loadout

/-- The tables of everything that a build can be made of. -/
structure Catalogue where
  skills : SkillTable
  decorations : Array Decoration
  pieces : Array Piece
  charms : Array Charm
  weapons : Array Weapon
  buffs : Array Buff
  deriving Inhabited

namespace Catalogue

def decoration (c : Catalogue) (d : DecorationId) : Decoration :=
  c.decorations.getD d.index.toNat default

def piece (c : Catalogue) (p : PieceId) : Piece := c.pieces.getD p.index.toNat default

def charm (c : Catalogue) (h : CharmId) : Charm := c.charms.getD h.index.toNat default

def weapon (c : Catalogue) (w : WeaponId) : Weapon := c.weapons.getD w.index.toNat default

def buff (c : Catalogue) (b : BuffId) : Buff := c.buffs.getD b.index.toNat default

def allDecorations (c : Catalogue) : List (DecorationId × Decoration) :=
  c.decorations.toList.mapIdx fun n d => (.ofIndex n, d)

def allPieces (c : Catalogue) : List (PieceId × Piece) :=
  c.pieces.toList.mapIdx fun n p => (.ofIndex n, p)

def allCharms (c : Catalogue) : List (CharmId × Charm) :=
  c.charms.toList.mapIdx fun n h => (.ofIndex n, h)

def allWeapons (c : Catalogue) : List (WeaponId × Weapon) :=
  c.weapons.toList.mapIdx fun n w => (.ofIndex n, w)

def allBuffs (c : Catalogue) : List (BuffId × Buff) :=
  c.buffs.toList.mapIdx fun n b => (.ofIndex n, b)

def findDecoration? (c : Catalogue) (id : String) : Option DecorationId :=
  (SkillTable.position? Decoration.id c.decorations id).map .ofIndex

def findCharm? (c : Catalogue) (id : String) : Option CharmId :=
  (SkillTable.position? Charm.id c.charms id).map .ofIndex

def findWeapon? (c : Catalogue) (id : String) : Option WeaponId :=
  (SkillTable.position? Weapon.id c.weapons id).map .ofIndex

def findBuff? (c : Catalogue) (id : String) : Option BuffId :=
  (SkillTable.position? Buff.id c.buffs id).map .ofIndex

/-- The handle of the piece of a set and variant for a slot. -/
def findPiece? (c : Catalogue) (setName : String) (variant : Variant) (slot : Slot) :
    Option PieceId :=
  (c.pieces.findIdx? fun p =>
    p.setName = setName && p.variant = variant && p.slot = slot).map .ofIndex

end Catalogue

end Loadout
