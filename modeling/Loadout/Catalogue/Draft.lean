import Loadout.Buff
import Loadout.Json.Reading
import Loadout.Weapon

/-!
# Catalogue documents

A draft is a catalogue as its six documents state it, read but not yet checked: ids still stand for
the entries they refer to.
-/

namespace Loadout

open Document Json

structure SkillDraft where
  name : String
  limit : Nat
  secretLimit : Option Nat
  states : Option Nat
  secretSkill : Option String
  deriving DecidableEq

structure StageDraft where
  pieces : Nat
  skill : String
  deriving DecidableEq

structure BonusDraft where
  name : String
  stages : List StageDraft
  deriving DecidableEq

structure SkillsDraft where
  skills : OrderedMap String SkillDraft
  bonuses : OrderedMap String BonusDraft

structure DecorationDraft where
  id : String
  name : String
  slotSize : Nat
  skills : OrderedMap String Nat

structure PieceDraft where
  skills : OrderedMap String Nat
  slots : List Nat

structure ArmourSetDraft where
  setName : String
  variant : Variant
  bonus : Option String
  pieces : OrderedMap Slot PieceDraft

structure CharmDraft where
  id : String
  name : String
  maxLevel : Nat
  skills : List String
  deriving DecidableEq

/-- The upgrades of a weapon as stated. -/
inductive UpgradesDraft where
  | none
  | custom
  | awakening (options : List String)
  deriving DecidableEq

structure WeaponDraft where
  id : String
  name : String
  weaponClass : WeaponClass
  rarity : Nat
  trueRaw : Nat
  affinity : Int
  skill : Option String
  slots : List Nat
  element : Element
  gauge : Option Gauge
  constantSharpness : Bool
  augments : AugmentScheme
  upgrades : UpgradesDraft

structure CatalogueDraft where
  skills : SkillsDraft
  decorations : List DecorationDraft
  armour : List ArmourSetDraft
  charms : List CharmDraft
  weapons : List WeaponDraft
  buffs : List Buff

namespace SkillsDraft

def readSkill : Reader SkillDraft := fun j => do
  let r ← record? ["name", "limit", "secret_limit", "states", "secret_skill"] false j
  return {
    name := ← r.required "name" text?
    limit := ← r.required "limit" byte?
    secretLimit := ← r.defaulted "secret_limit" none (optional? byte?)
    states := ← r.defaulted "states" none (optional? byte?)
    secretSkill := ← r.defaulted "secret_skill" none (optional? text?) }

def readStage : Reader StageDraft := fun j => do
  let r ← record? ["parts", "skill"] false j
  return { pieces := ← r.required "parts" byte?, skill := ← r.required "skill" text? }

def readBonus : Reader BonusDraft := fun j => do
  let r ← record? ["name", "stages"] false j
  return {
    name := ← r.required "name" text?
    stages := ← r.required "stages" (list? readStage) }

def read : Reader SkillsDraft := fun j => do
  let r ← record? ["skills", "set_bonuses"] false j
  return {
    skills := ← r.required "skills" (texts? readSkill)
    bonuses := ← r.defaulted "set_bonuses" ∅ (texts? readBonus) }

end SkillsDraft

/-- Reads a document that is a list under one name. -/
def readListed {α : Type} (name : String) (read : Reader α) : Reader (List α) := fun j => do
  (← record? [name] false j).required name (list? read)

def DecorationDraft.read : Reader DecorationDraft := fun j => do
  let r ← record? ["id", "name", "slot_size", "skills"] false j
  return {
    id := ← r.required "id" text?
    name := ← r.required "name" text?
    slotSize := ← r.required "slot_size" byte?
    skills := ← r.required "skills" (texts? byte?) }

def PieceDraft.read : Reader PieceDraft := fun j => do
  let r ← record? ["skills", "decoration_slots"] false j
  return {
    skills := ← r.defaulted "skills" ∅ (texts? byte?)
    slots := ← r.defaulted "decoration_slots" [] (list? byte?) }

def ArmourSetDraft.read : Reader ArmourSetDraft := fun j => do
  let r ← record? ["set_name", "variant", "set_bonus", "pieces"] false j
  return {
    setName := ← r.required "set_name" text?
    variant := ← r.required "variant" (named? Variant.ofName?)
    bonus := ← r.defaulted "set_bonus" none (optional? text?)
    pieces := ← r.required "pieces" (table? Slot.ofName? PieceDraft.read) }

def CharmDraft.read : Reader CharmDraft := fun j => do
  let r ← record? ["id", "name", "max_level", "skills"] false j
  return {
    id := ← r.required "id" text?
    name := ← r.required "name" text?
    maxLevel := ← r.required "max_level" byte?
    skills := ← r.required "skills" (list? text?) }

/-- Reads an element, each of whose fields may be left out. -/
def Element.read : Reader Element := fun j => do
  let r ← record? ["visibility", "type", "value"] false j
  return {
    visibility := ← r.defaulted "visibility" .none (named? Visibility.ofName?)
    kind := ← r.defaulted "type" .none (named? ElementKind.ofName?)
    value := ← r.defaulted "value" 0 word? }

/-- Reads a gauge: seven numbers of hits. -/
def Gauge.read : Reader Gauge := fun j => do Gauge.ofHits? (← list? (nat? tierMax) j)

def AugmentScheme.ofName? : String → Option AugmentScheme
  | "NONE" => some .none
  | "ICEBORNE" => some .iceborne
  | _ => Option.none

/-- How deep the containers beside a kind of upgrades may be nested, inside the four around them. -/
def upgradesDepth : Nat := 123

/-- Reads upgrades by their kind; only awakenings look at what stands beside it. -/
def UpgradesDraft.read : Reader UpgradesDraft := fun j => do
  let (kind, rest) ← tagged? "kind" upgradesDepth j
  match kind with
  | "NONE" => bare .none rest
  | "CUSTOM" => bare .custom rest
  -- a row has no room for anything behind the other two kinds
  | "AWAKENING" => do
      let r ← record? ["set_bonus_options"] false rest
      return .awakening (← r.defaulted "set_bonus_options" [] (list? text?))
  | _ => Option.none
where
  bare (u : UpgradesDraft) : Json → Option UpgradesDraft
    | .array (_ :: _) => Option.none
    | _ => some u

def WeaponDraft.read : Reader WeaponDraft := fun j => do
  let r ← record? ["id", "name", "class", "rarity", "true_raw", "affinity", "skill",
    "decoration_slots", "element", "sharpness", "constant_sharpness", "augments", "upgrades"]
    false j
  return {
    id := ← r.required "id" text?
    name := ← r.required "name" text?
    weaponClass := ← r.required "class" (named? WeaponClass.ofName?)
    rarity := ← r.required "rarity" byte?
    trueRaw := ← r.required "true_raw" word?
    affinity := ← r.defaulted "affinity" 0 (int? (-2147483648) 2147483647)
    skill := ← r.defaulted "skill" none (optional? text?)
    slots := ← r.defaulted "decoration_slots" [] (list? byte?)
    element := ← r.defaulted "element" default Element.read
    gauge := ← r.defaulted "sharpness" none (optional? Gauge.read)
    constantSharpness := ← r.defaulted "constant_sharpness" false bool?
    augments := ← r.defaulted "augments" .none (named? AugmentScheme.ofName?)
    upgrades := ← r.defaulted "upgrades" .none UpgradesDraft.read }

/-- Reads a buff, which refers to nothing else. -/
def Buff.read : Reader Buff := fun j => do
  let r ← record? ["id", "name", "added_raw", "base_raw_multiplier", "exclusive_group"] false j
  return {
    id := ← r.required "id" text?
    name := ← r.required "name" text?
    addedRaw := ← r.defaulted "added_raw" 0 word?
    multiplier := ← r.defaulted "base_raw_multiplier" (.ofNat 1) decimal?
    group := ← r.defaulted "exclusive_group" none (optional? text?) }

end Loadout
