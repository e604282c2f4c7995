import Loadout.Damage.Hit
import Loadout.Json.Reading
import Loadout.Resolution
import Loadout.Yaml.Parser

/-!
# Search requests

A request states which equipment may be used, what the build has to meet, and the attack and target
that damage is worked out for.
-/

namespace Loadout

open Document

structure RequestDraft where
  allowLow : Bool
  allowHigh : Bool
  allowMaster : Bool
  healthRegenRequired : Bool
  weaponClass : WeaponClass
  allowElement : List (ElementKind × Bool)
  damageModel : DamageModel
  requirements : RequirementsDraft
  buffs : List String

structure Request where
  allowLow : Bool
  allowHigh : Bool
  allowMaster : Bool
  healthRegenRequired : Bool
  weaponClass : WeaponClass
  elements : List ElementKind
  damageModel : DamageModel
  requirements : Requirements
  consumables : Consumables

namespace RequestDraft

def selectionNames : List String := "class" :: DamageModel.elements.map ("allow_" ++ ·.2)

def fieldNames : List String :=
  ["allow_low_rank", "allow_high_rank", "allow_master_rank", "health_regen_required",
    "weapon_selection", "damage_model", "selected_skills", "forced_skill_states",
    "force_remove_skills", "misc_buffs", "set_bonus_cutoffs"]

def read {δ : Type} [Document δ] (j : δ) : Option RequestDraft := do
  let r ← record? fieldNames true j
  let selection ← r.required "weapon_selection" (record? selectionNames true)
  return {
    allowLow := ← r.required "allow_low_rank" bool?
    allowHigh := ← r.required "allow_high_rank" bool?
    allowMaster := ← r.required "allow_master_rank" bool?
    healthRegenRequired := ← r.required "health_regen_required" bool?
    weaponClass := ← selection.required "class" (named? WeaponClass.ofName?)
    allowElement := ← DamageModel.elements.mapM fun e => do
      return (e.1, ← selection.required ("allow_" ++ e.2) bool?)
    damageModel := ← r.required "damage_model" DamageModel.read
    requirements := {
      selected := ← r.required "selected_skills" (texts? byte?)
      forcedStates := ← r.required "forced_skill_states" (texts? byte?)
      removed := ← r.required "force_remove_skills" (list? text?)
      cutoffs := ← r.defaulted "set_bonus_cutoffs" ∅ (texts? byte?) }
    buffs := ← r.required "misc_buffs" (list? text?) }

end RequestDraft

namespace Request

def resolve (c : Catalogue) (d : RequestDraft) : Except InputError Request := do
  let requirements ← c.resolveRequirements d.requirements
  let consumables ← c.resolveConsumables d.buffs
  return {
    allowLow := d.allowLow
    allowHigh := d.allowHigh
    allowMaster := d.allowMaster
    healthRegenRequired := d.healthRegenRequired
    weaponClass := d.weaponClass
    elements := (d.allowElement.filter (·.2)).map (·.1)
    damageModel := d.damageModel
    requirements, consumables }

/-- The request that a draft states, if there is a draft. -/
def ofDraft (c : Catalogue) : Option RequestDraft → Except InputError Request
  | some d => resolve c d
  | none => .error .malformed

def ofJson (c : Catalogue) (text : String) : Except InputError Request :=
  ofDraft c ((Json.parse? text).bind RequestDraft.read)

def ofYaml (c : Catalogue) (text : String) : Except InputError Request :=
  ofDraft c ((Yaml.parse? text).bind RequestDraft.read)

def allowsRank (r : Request) : Rank → Bool
  | .low => r.allowLow
  | .high => r.allowHigh
  | .master => r.allowMaster

/-- Whether a weapon may be used; weapons without a true element pass whatever their status. -/
def allowsWeapon (r : Request) (w : Weapon) : Bool :=
  w.weaponClass = r.weaponClass && r.allowsRank w.rank &&
    (!w.element.kind.isElement || r.elements.contains w.element.kind)

end Request

end Loadout
