import Loadout.Damage.Hit
import Loadout.Gear
import Loadout.Json.Reading
import Loadout.Resolution

/-!
# Builds

A build document names a weapon with its choices, the armour worn, a charm, decorations and
consumables, and under which requirements the build is to be judged.
-/

namespace Loadout

open Document Json

structure WeaponChoice where
  id : String
  augmentLevel : Nat
  augments : OrderedMap Augment Nat
  upgrades : List String

structure PieceChoice where
  setName : String
  variant : Variant
  deriving DecidableEq

structure BuildDraft where
  weapon : WeaponChoice
  armour : OrderedMap Slot PieceChoice
  charm : Option String
  decorations : List String
  buffs : List String
  requirements : RequirementsDraft
  damageModel : Option DamageModel

/-- A build with every id found and every choice accepted. -/
structure Build where
  weapon : ConfiguredWeapon
  outfit : Outfit
  decorations : List DecorationId
  consumables : Consumables
  requirements : Requirements
  damageModel : Option DamageModel

def WeaponChoice.read : Reader WeaponChoice := fun j => do
  let r ← record? ["id", "augment_level", "augments", "upgrades"] true j
  return {
    id := ← r.required "id" text?
    augmentLevel := ← r.defaulted "augment_level" 0 byte?
    augments := ← r.defaulted "augments" ∅ (table? Augment.ofName? byte?)
    upgrades := ← r.defaulted "upgrades" [] (list? text?) }

def PieceChoice.read : Reader PieceChoice := fun j => do
  let r ← record? ["set", "variant"] true j
  return {
    setName := ← r.required "set" text?
    variant := ← r.required "variant" (named? Variant.ofName?) }

def BuildDraft.read : Reader BuildDraft := fun j => do
  let r ← record? ["weapon", "armour", "charm", "decorations", "misc_buffs", "selected_skills",
    "forced_skill_states", "force_remove_skills", "damage_model"] true j
  return {
    weapon := ← r.required "weapon" WeaponChoice.read
    armour := ← r.defaulted "armour" ∅ (table? Slot.ofName? PieceChoice.read)
    charm := ← r.defaulted "charm" none (optional? text?)
    decorations := ← r.defaulted "decorations" [] (list? text?)
    buffs := ← r.defaulted "misc_buffs" [] (list? text?)
    requirements := {
      selected := ← r.defaulted "selected_skills" ∅ (texts? byte?)
      forcedStates := ← r.defaulted "forced_skill_states" ∅ (texts? byte?)
      removed := ← r.defaulted "force_remove_skills" [] (list? text?)
      cutoffs := ∅ }
    damageModel := ← r.defaulted "damage_model" none (optional? DamageModel.read) }

/-- What the label of an upgrade that adds a set bonus starts with. -/
def bonusLabel : String := "SAFI_SET_BONUS:"

def Catalogue.upgrade (c : Catalogue) (label : String) : Except InputError Upgrade :=
  if label.startsWith bonusLabel then
    (InputError.find .bonus c.skills.findBonus? (label.drop bonusLabel.length).toString).map .bonus
  else
    InputError.find .upgrade (fun l => Upgrade.plain.find? (·.label = l)) label

def WeaponChoice.resolve (c : Catalogue) (d : WeaponChoice) :
    Except InputError ConfiguredWeapon := do
  let weapon := c.weapon (← InputError.find .weapon c.findWeapon? d.id)
  let accept : Except Refusal Setup → Except InputError Setup := InputError.ofRefusal weapon.id
  let leveled ← accept (Setup.fresh.setLevel weapon d.augmentLevel)
  let augmented ← d.augments.entries.foldlM (fun s e => accept (s.setAugment e.1 e.2)) leveled
  let setup ← d.upgrades.foldlM
    (fun s label => do accept (s.addUpgrade weapon (← c.upgrade label))) augmented
  return ⟨weapon, setup⟩

def BuildDraft.resolveOutfit (c : Catalogue) (d : BuildDraft) : Except InputError Outfit := do
  let worn ← d.armour.entries.foldlM
    (fun o e => do
      match c.findPiece? e.2.setName e.2.variant e.1 with
      | some p => return o.put c p
      | none => throw (.unknown .piece (Piece.shownName e.2.setName e.1 e.2.variant)))
    Outfit.bare
  let charm ← d.charm.mapM (InputError.find .charm c.findCharm?)
  return { worn with charm }

namespace Build

/-- A build document with its ids found and its choices checked. -/
def resolve (c : Catalogue) (d : BuildDraft) : Except InputError Build := do
  let weapon ← d.weapon.resolve c
  let outfit ← d.resolveOutfit c
  let decorations ← d.decorations.mapM (InputError.find .decoration c.findDecoration?)
  let stats ← InputError.ofFault weapon.stats
  if !c.decorationsFit outfit stats decorations then throw .doesNotFit
  let consumables ← c.resolveConsumables d.buffs
  let requirements ← c.resolveRequirements d.requirements
  return { weapon, outfit, decorations, consumables, requirements, damageModel := d.damageModel }

def ofJson (c : Catalogue) (text : String) : Except InputError Build :=
  match (Json.parse? text).bind BuildDraft.read with
  | some d => resolve c d
  | none => .error .malformed

end Build

end Loadout
