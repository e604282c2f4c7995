import Loadout.Catalogue.Error
import Loadout.Weapon

/-!
# Weapon setups

A setup is what has been chosen for a weapon: an augment level, how often each augment is taken,
and a list of upgrades.  Each choice is checked when it is made, and a refused choice leaves the
setup as it was.
-/

namespace Loadout

open Std

inductive Augment where
  | attack
  | affinity
  | healthRegen
  | slot
  deriving DecidableEq, Repr, Inhabited

namespace Augment

def all : List Augment := [attack, affinity, healthRegen, slot]

/-- The name of an augment in documents. -/
def name : Augment → String
  | attack => "ATTACK_INCREASE"
  | affinity => "AFFINITY_INCREASE"
  | healthRegen => "HEALTH_REGEN"
  | slot => "SLOT_UPGRADE"

/-- The name of an augment in messages. -/
def title : Augment → String
  | attack => "AttackIncrease"
  | affinity => "AffinityIncrease"
  | healthRegen => "HealthRegen"
  | slot => "SlotUpgrade"

def ofName? (s : String) : Option Augment := all.find? (·.name = s)

def single : Augment → Bool
  | healthRegen | slot => true
  | _ => false

def index : Augment → Nat
  | attack => 0
  | affinity => 1
  | healthRegen => 2
  | slot => 3

theorem index_injective {a b : Augment} (h : a.index = b.index) : a = b := by
  cases a <;> cases b <;> simp_all [index]

instance : Ord Augment := ⟨compareOn Augment.index⟩

instance : TransOrd Augment := inferInstanceAs (TransCmp (compareOn Augment.index))

instance : LawfulEqOrd Augment where
  eq_of_compare h := index_injective (LawfulEqOrd.eq_of_compare (α := Nat) h)

end Augment

/-- The upgrades: custom ones, and awakenings of fifth or sixth level. -/
inductive Upgrade where
  | customAttack
  | customAffinity
  | customSlot
  | attack5
  | attack6
  | affinity5
  | affinity6
  | sharpness5
  | sharpness6
  | slot
  | bonus (id : BonusId)
  deriving DecidableEq, Repr, Inhabited

namespace Upgrade

/-- Whether an upgrade is a custom one; the others are awakenings. -/
def isCustom : Upgrade → Bool
  | customAttack | customAffinity | customSlot => true
  | _ => false

/-- Whether an upgrade is an awakening of the sixth level. -/
def isLevelSix : Upgrade → Bool
  | attack6 | affinity6 | sharpness6 => true
  | _ => false

def isSharpness : Upgrade → Bool
  | sharpness5 | sharpness6 => true
  | _ => false

def isSlot : Upgrade → Bool
  | customSlot | slot => true
  | _ => false

/-- The set bonus that an upgrade adds a piece of. -/
def bonus? : Upgrade → Option BonusId
  | bonus id => some id
  | _ => none

def label : Upgrade → String
  | customAttack => "CUSTOM_ATTACK"
  | customAffinity => "CUSTOM_AFFINITY"
  | customSlot => "CUSTOM_SLOT"
  | attack5 => "SAFI_ATTACK_5"
  | attack6 => "SAFI_ATTACK_6"
  | affinity5 => "SAFI_AFFINITY_5"
  | affinity6 => "SAFI_AFFINITY_6"
  | sharpness5 => "SAFI_SHARPNESS_5"
  | sharpness6 => "SAFI_SHARPNESS_6"
  | slot => "SAFI_SLOT"
  | bonus _ => "SAFI_SET_BONUS"

def plain : List Upgrade :=
  [customAttack, customAffinity, customSlot, attack5, attack6, affinity5, affinity6, sharpness5,
    sharpness6, slot]

end Upgrade

inductive Refusal where
  | notAugmentable
  | levelBeyond (level : Nat)
  | levelBelowSpent
  | onlyOnce (augment : Augment)
  | beyondLevel (needed level : Nat)
  | noUpgrades
  | notCustom (upgrade : Upgrade)
  | customFull
  | notAwakening (upgrade : Upgrade)
  | awakeningsFull
  | secondLevelSix
  | noGauge
  | bonusNotOffered
  | secondBonus
  | secondSlot
  deriving DecidableEq, Repr

def maxAugmentLevel : Nat := 3

def maxCustom : Nat := 7

def maxAwakenings : Nat := 5

def Refusal.message : Refusal → String
  | notAugmentable => "weapon cannot be augmented"
  | levelBeyond level =>
      "augment level " ++ toString level ++ " exceeds " ++ toString maxAugmentLevel
  | levelBelowSpent => "augment level is lower than the augments already selected"
  | onlyOnce augment => augment.title ++ " can only be selected once"
  | beyondLevel needed level =>
      "augments need " ++ toString needed ++ " steps but augment level is " ++ toString level
  | noUpgrades => "weapon has no upgrades"
  | notCustom upgrade => upgrade.label ++ " is not a custom upgrade"
  | customFull => "all custom upgrade slots are used"
  | notAwakening upgrade => upgrade.label ++ " is not an awakening"
  | awakeningsFull => "all awakening slots are used"
  | secondLevelSix => "only one level-6 awakening is allowed"
  | noGauge => "weapon has no sharpness to awaken"
  | bonusNotOffered => "set bonus is not offered by this weapon"
  | secondBonus => "only one set bonus awakening is allowed"
  | secondSlot => "only one slot upgrade is allowed"

/-- How often each augment is taken, and the level that pays for them. -/
structure Augments where
  level : Nat := 0
  attack : Nat := 0
  affinity : Nat := 0
  healthRegen : Nat := 0
  slot : Nat := 0
  deriving DecidableEq, Repr, Inhabited

namespace Augments

def spent (a : Augments) : Nat := a.attack + a.affinity + a.healthRegen + a.slot

def count (a : Augments) : Augment → Nat
  | .attack => a.attack
  | .affinity => a.affinity
  | .healthRegen => a.healthRegen
  | .slot => a.slot

def withCount (a : Augments) (n : Nat) : Augment → Augments
  | .attack => { a with attack := n }
  | .affinity => { a with affinity := n }
  | .healthRegen => { a with healthRegen := n }
  | .slot => { a with slot := n }

end Augments

/-- What has been chosen for a weapon. -/
structure Setup where
  augments : Augments
  upgrades : List Upgrade
  deriving DecidableEq, Repr, Inhabited

namespace Setup

def fresh : Setup := ⟨{}, []⟩

def setLevel (w : Weapon) (s : Setup) (level : Nat) : Except Refusal Setup :=
  if w.augments = .none ∧ 0 < level then .error .notAugmentable
  else if maxAugmentLevel < level then .error (.levelBeyond level)
  else if level < s.augments.spent then .error .levelBelowSpent
  else .ok { s with augments.level := level }

def setAugment (s : Setup) (augment : Augment) (n : Nat) : Except Refusal Setup :=
  let next := s.augments.withCount n augment
  -- what can be taken once is refused a second time even if the level would pay for it
  if augment.single ∧ 1 < n then .error (.onlyOnce augment)
  else if next.level < next.spent then .error (.beyondLevel next.spent next.level)
  else .ok { s with augments := next }

def hasUpgrade (s : Setup) (sort : Upgrade → Bool) : Bool := s.upgrades.any sort

/-- What speaks against another upgrade on a weapon with custom upgrades. -/
def customRefusal (s : Setup) (u : Upgrade) : Option Refusal :=
  if !u.isCustom then some (.notCustom u)
  else if maxCustom ≤ s.upgrades.length then some .customFull
  else none

/-- What speaks against another set bonus among the offered ones. -/
def bonusRefusal (s : Setup) (options : List BonusId) (b : BonusId) : Option Refusal :=
  if b ∉ options then some .bonusNotOffered
  else if s.hasUpgrade (·.bonus?.isSome) then some .secondBonus
  else none

/-- What speaks against another upgrade on a weapon with awakenings. -/
def awakeningRefusal (w : Weapon) (s : Setup) (options : List BonusId) (u : Upgrade) :
    Option Refusal :=
  if u.isCustom then some (.notAwakening u)
  else if maxAwakenings ≤ s.upgrades.length then some .awakeningsFull
  else if u.isLevelSix && s.hasUpgrade Upgrade.isLevelSix then some .secondLevelSix
  else if u.isSharpness && w.gauge.isNone then some .noGauge
  else u.bonus?.bind (s.bonusRefusal options)

def schemeRefusal (w : Weapon) (s : Setup) (u : Upgrade) : Option Refusal :=
  match w.upgrades with
  | .none => some .noUpgrades
  | .custom => s.customRefusal u
  | .awakening options => s.awakeningRefusal w options u

def addUpgrade (w : Weapon) (s : Setup) (u : Upgrade) : Except Refusal Setup :=
  match s.schemeRefusal w u with
  | some refusal => .error refusal
  | none =>
      if u.isSlot && s.hasUpgrade Upgrade.isSlot then .error .secondSlot
      else .ok { s with upgrades := s.upgrades ++ [u] }

/-- What has been chosen, a line for the augments and one for each upgrade. -/
def describe (s : Setup) : List String :=
  let a := s.augments
  let augments :=
    if 0 < a.level then
      ["augment level " ++ toString a.level ++ " (attack " ++ toString a.attack ++ ", affinity " ++
        toString a.affinity ++ ", health regen " ++ toString a.healthRegen ++ ", slot " ++
        toString a.slot ++ ")"]
    else []
  augments ++ s.upgrades.map Upgrade.label

end Setup

end Loadout
