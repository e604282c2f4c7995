import Loadout.Build
import Loadout.Decimal.Shortest
import Loadout.Search

/-!
# Reports

A report says what a build is made of and what it achieves.  Numbers that are not finite are left
empty, and a report of a search ends with how much there was to search.
-/

namespace Loadout

open Json

structure WeaponReport where
  id : String
  name : String
  weaponClass : WeaponClass
  configuration : List String

structure SkillReport where
  id : String
  name : String
  level : Nat

structure Report (R : Type) where
  effective : Effective R
  hit : Option (Hit R)
  weapon : WeaponReport
  armour : List (Slot × String)
  charm : Option String
  decorations : List String
  buffs : List String
  skills : List SkillReport
  stats : Option SearchStats

namespace Report

variable {R : Type} [Reckoning R]

/-- The pieces of an outfit by name, head to legs. -/
def armourOf (c : Catalogue) (o : Outfit) : List (Slot × String) :=
  Slot.all.filterMap fun s => (o.piece? s).map fun p => (s, (c.piece p).displayName)

/-- Skill levels by name, in table order. -/
def skillsOf (c : Catalogue) (levels : SkillLevels) : List SkillReport :=
  levels.toList.map fun l =>
    let skill := c.skills.skill l.1
    ⟨skill.id, skill.name, l.2⟩

def make (c : Catalogue) (weapon : ConfiguredWeapon) (outfit : Outfit)
    (decorations : List DecorationId) (consumables : Consumables) (levels : SkillLevels)
    (effective : Effective R) (model : Option DamageModel) : Except Fault (Report R) := do
  return {
    effective
    hit := ← model.mapM fun m => Hit.ofEffective m effective
    weapon :=
      ⟨weapon.weapon.id, weapon.weapon.name, weapon.weapon.weaponClass, weapon.setup.describe⟩
    armour := armourOf c outfit
    charm := outfit.charm.map fun h => (c.charm h).name
    decorations := decorations.map fun d => (c.decoration d).name
    buffs := consumables.buffs.map (·.name)
    skills := skillsOf c levels
    stats := none }

def ofBuild (c : Catalogue) (b : Build) : Except Fault (Report R) := do
  let effective ← c.gearEffective b.requirements b.consumables.boost b.weapon b.outfit b.decorations
  let levels := c.gearLevels (← b.weapon.stats) b.outfit b.decorations
  make c b.weapon b.outfit b.decorations b.consumables levels effective b.damageModel

def ofFind (c : Catalogue) (q : Request) (f : Find R) (stats : SearchStats) :
    Except Fault (Report R) := do
  let report ← make c f.weapon f.outfit f.decorations q.consumables f.levels f.effective
    (some q.damageModel)
  return { report with stats := some stats }

/-- The document of a hit, its numbers written in a given way. -/
def ofHit (number : R → Json) (h : Hit R) : Json :=
  record [
    ("unrounded_raw_damage", number h.raw),
    ("unrounded_elestat_damage", number h.element),
    ("unrounded_total_damage", number h.total),
    ("actual_total_damage", .nat h.dealt)]

def ofStats (s : SearchStats) : Json :=
  record [
    ("weapons_kept", .nat s.weapons),
    ("decorations_kept", .nat s.decorations),
    ("slot_combos", .array (s.slotEntries.map .nat)),
    ("charm_seeds", .nat s.charmSeeds),
    ("armour_sets", .nat s.armourSets),
    ("builds_evaluated", .nat s.evaluated)]

def ofWeapon (w : WeaponReport) : Json :=
  record [
    ("id", .string w.id),
    ("name", .string w.name),
    ("class", .string w.weaponClass.name),
    ("configuration", .array (w.configuration.map .string))]

def ofPiece (p : Slot × String) : Json :=
  record [("slot", .string p.1.name), ("piece", .string p.2)]

def ofSkill (s : SkillReport) : Json :=
  record [("id", .string s.id), ("name", .string s.name), ("level", .nat s.level)]

/-- The members of a report's document, its numbers written in a given way. -/
def members (number : R → Json) (r : Report R) : List (String × Json) :=
  [("efr", number r.effective.raw),
    ("efes", number r.effective.element),
    ("affinity", .int r.effective.affinity),
    ("sharpness", .ofOption (fun g => .string g.describe) r.effective.gauge),
    ("pre_raw_cap_ratio", number r.effective.capShare),
    ("damage", .ofOption (ofHit number) r.hit),
    ("weapon", ofWeapon r.weapon),
    ("armour", .array (r.armour.map ofPiece)),
    ("charm", .ofOption .string r.charm),
    ("decorations", .array (r.decorations.map .string)),
    ("misc_buffs", .array (r.buffs.map .string)),
    ("skills", .array (r.skills.map ofSkill))] ++
    r.stats.toList.map fun s => ("stats", ofStats s)

/-- A double with its shortest text; null if it is not finite. -/
def number (x : Float) : Json := if x.isFinite then .number (Decimal.shortestText x) else .null

/-- The document of a report, with the time at which it was made. -/
def toJson (generatedAt : String) (r : Report Float) : Json :=
  record (("generated_at", .string generatedAt) :: r.members number)

end Report

end Loadout
