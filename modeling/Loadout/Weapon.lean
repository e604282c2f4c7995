import Loadout.Armour
import Loadout.Sharpness

/-!
# Weapons

Melee weapons have a sharpness gauge, given at its longest; ranged weapons have none.  An element is
open, hidden until a skill wakes it, or not there.  Augments and upgrades are offered by scheme.
-/

namespace Loadout

inductive WeaponClass where
  | greatsword
  | longsword
  | swordAndShield
  | dualBlades
  | hammer
  | huntingHorn
  | lance
  | gunlance
  | switchAxe
  | chargeBlade
  | insectGlaive
  | bow
  | lightBowgun
  | heavyBowgun
  deriving DecidableEq, Repr, Inhabited

namespace WeaponClass

def all : List WeaponClass :=
  [greatsword, longsword, swordAndShield, dualBlades, hammer, huntingHorn, lance, gunlance,
    switchAxe, chargeBlade, insectGlaive, bow, lightBowgun, heavyBowgun]

def name : WeaponClass → String
  | greatsword => "GREATSWORD"
  | longsword => "LONGSWORD"
  | swordAndShield => "SWORD_AND_SHIELD"
  | dualBlades => "DUAL_BLADES"
  | hammer => "HAMMER"
  | huntingHorn => "HUNTING_HORN"
  | lance => "LANCE"
  | gunlance => "GUNLANCE"
  | switchAxe => "SWITCH_AXE"
  | chargeBlade => "CHARGE_BLADE"
  | insectGlaive => "INSECT_GLAIVE"
  | bow => "BOW"
  | lightBowgun => "LIGHT_BOWGUN"
  | heavyBowgun => "HEAVY_BOWGUN"

def ofName? (s : String) : Option WeaponClass := all.find? (·.name = s)

def isRanged : WeaponClass → Bool
  | bow | lightBowgun | heavyBowgun => true
  | _ => false

end WeaponClass

inductive Visibility where
  | none
  | openly
  | hidden
  deriving DecidableEq, Repr, Inhabited

namespace Visibility

def all : List Visibility := [none, openly, hidden]

def name : Visibility → String
  | none => "NONE"
  | openly => "OPEN"
  | hidden => "HIDDEN"

def ofName? (s : String) : Option Visibility := all.find? (·.name = s)

end Visibility

inductive ElementKind where
  | none
  | fire
  | water
  | thunder
  | ice
  | dragon
  | poison
  | paralysis
  | sleep
  | blast
  deriving DecidableEq, Repr, Inhabited

namespace ElementKind

def all : List ElementKind :=
  [none, fire, water, thunder, ice, dragon, poison, paralysis, sleep, blast]

def name : ElementKind → String
  | none => "NONE"
  | fire => "FIRE"
  | water => "WATER"
  | thunder => "THUNDER"
  | ice => "ICE"
  | dragon => "DRAGON"
  | poison => "POISON"
  | paralysis => "PARALYSIS"
  | sleep => "SLEEP"
  | blast => "BLAST"

def ofName? (s : String) : Option ElementKind := all.find? (·.name = s)

/-- Whether a kind is a true element, not a status. -/
def isElement : ElementKind → Bool
  | fire | water | thunder | ice | dragon => true
  | _ => false

end ElementKind

/-- The element or status of a weapon. -/
structure Element where
  visibility : Visibility := .none
  kind : ElementKind := .none
  value : Nat := 0
  deriving DecidableEq, Repr, Inhabited

namespace Element

/-- Whether a weapon counts as raw: a hidden element does not show. -/
def isRaw (e : Element) : Bool := e.visibility != .openly

/-- Whether visibility, kind and value agree that there is an element or that there is none. -/
def consistent (e : Element) : Bool :=
  match e.visibility with
  | .none => e.kind = .none && e.value = 0
  | _ => e.kind ≠ .none && 0 < e.value

end Element

inductive AugmentScheme where
  | none
  | iceborne
  deriving DecidableEq, Repr, Inhabited

inductive UpgradeScheme where
  | none
  | custom
  /-- Awakenings, with the set bonuses that one of them may add. -/
  | awakening (options : List BonusId)
  deriving DecidableEq, Repr, Inhabited

structure WeaponId where
  index : UInt32
  deriving DecidableEq, Hashable, Repr, Inhabited

def WeaponId.ofIndex (n : Nat) : WeaponId := ⟨UInt32.ofNat n⟩

/-- A weapon before any augment or upgrade. -/
structure Weapon where
  id : String
  name : String
  weaponClass : WeaponClass
  rarity : Nat
  trueRaw : Nat
  affinity : Int
  skill : Option SkillId
  /-- The decoration slots, largest first. -/
  decoSlots : List Nat
  element : Element
  /-- The longest gauge; none for ranged weapons. -/
  gauge : Option Gauge
  constantSharpness : Bool
  augments : AugmentScheme
  upgrades : UpgradeScheme
  deriving DecidableEq, Inhabited

def Weapon.rank (w : Weapon) : Rank := .ofRarity w.rarity

end Loadout
