import Loadout.Armour
import Loadout.FileTree
import Loadout.Weapon

/-!
# Why a catalogue is refused

An error names the entry at fault and its cause; the wording is worked out from both.
-/

namespace Loadout

/-- The kinds of things that have an id. -/
inductive Kind where
  | skill
  | bonus
  | decoration
  | charm
  | weapon
  | buff
  | piece
  | upgrade
  deriving DecidableEq, Repr

def Kind.name : Kind → String
  | skill => "skill"
  | bonus => "set bonus"
  | decoration => "decoration"
  | charm => "charm"
  | weapon => "weapon"
  | buff => "misc buff"
  | piece => "armour piece"
  | upgrade => "weapon upgrade"

inductive Entry where
  | skill (id : String)
  | bonus (id : String)
  | decoration (id : String)
  | armourSet (setName : String) (variant : Variant)
  | piece (setName : String) (variant : Variant) (slot : Slot)
  | charm (id : String)
  | weapon (id : String)
  deriving DecidableEq, Repr

def quoted (s : String) : String := "'" ++ s ++ "'"

def Entry.describe : Entry → String
  | skill id => "skill " ++ quoted id
  | bonus id => "set bonus " ++ quoted id
  | decoration id => "decoration " ++ quoted id
  | armourSet setName variant => "armour set " ++ quoted setName ++ variant.mark
  | piece setName variant slot =>
      "armour set " ++ quoted setName ++ variant.mark ++ " " ++ slot.name
  | charm id => "charm " ++ quoted id
  | weapon id => "weapon " ++ quoted id

/-- What can be wrong with an entry by itself. -/
inductive EntryFault where
  | limits (limit secretLimit : Nat)
  | stage (pieces : Nat)
  | decorationSize (size : Nat)
  | noSkills
  | slotSize (size : Nat)
  | charmLevel
  | noRaw
  /-- A blade on a ranged weapon, or none on a melee weapon. -/
  | gauge (weaponClass : WeaponClass)
  | element
  deriving DecidableEq, Repr

def EntryFault.message : EntryFault → String
  | limits limit secretLimit =>
      "limit " ++ toString limit ++ " and secret limit " ++ toString secretLimit ++
        " are inconsistent"
  | stage pieces => "stage threshold " ++ toString pieces ++ " is out of range"
  | decorationSize size => "slot size " ++ toString size ++ " is out of range"
  | noSkills => "decoration grants no skills"
  | slotSize size => "decoration slot size " ++ toString size ++ " is out of range"
  | charmLevel => "max level must be at least 1"
  | noRaw => "true raw must be positive"
  | gauge weaponClass =>
      weaponClass.name ++ " weapons " ++
        (if weaponClass.isRanged then "cannot have" else "need") ++ " a sharpness gauge"
  | element => "element visibility, type and value disagree"

inductive CatalogueError where
  | unreadable (path : String) (reason : Unreadable)
  | unparsable (path : String)
  | duplicate (kind : Kind) (id : String)
  | unresolved (entry : Entry) (kind : Kind) (id : String)
  | invalid (entry : Entry) (fault : EntryFault)
  deriving DecidableEq, Repr

def CatalogueError.message : CatalogueError → String
  | unreadable path reason => "unable to read " ++ quoted path ++ ": " ++ reason.message
  | unparsable path => "unable to parse " ++ quoted path
  | duplicate kind id => "duplicate " ++ kind.name ++ " id " ++ quoted id
  | unresolved entry kind id =>
      entry.describe ++ " references unknown " ++ kind.name ++ " " ++ quoted id
  | invalid entry fault => entry.describe ++ ": " ++ fault.message

end Loadout
