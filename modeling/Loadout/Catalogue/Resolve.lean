import Loadout.Catalogue
import Loadout.Catalogue.Draft
import Loadout.Catalogue.Error
import Loadout.Levels

/-!
# From draft to catalogue

A draft becomes a catalogue when every id in it is found, every number is in its range and no two
entries of a table share an id.  The tables are checked in the order in which they depend on each
other, ids last, and the first fault is the answer.
-/

namespace Loadout

/-- Finds an id, or tells which entry refers to it in vain. -/
def refer {α : Type} (entry : Entry) (kind : Kind) (find : String → Option α) (id : String) :
    Except CatalogueError α :=
  match find id with
  | some a => .ok a
  | none => .error (.unresolved entry kind id)

def demand (condition : Bool) (entry : Entry) (fault : EntryFault) : Except CatalogueError Unit :=
  if condition then .ok () else .error (.invalid entry fault)

/-- Skill levels by id, with the ids found. -/
def SkillTable.referAll (t : SkillTable) (entry : Entry) (levels : List (String × Nat)) :
    Except CatalogueError (List (SkillId × Nat)) :=
  levels.mapM fun l => do return (← refer entry .skill t.findSkill? l.1, l.2)

/-- Whether a size is one that slots and decorations can have. -/
def validSize (n : Nat) : Bool := 1 ≤ n && n ≤ maxSlotSize

/-- Decoration slots of valid sizes, largest first. -/
def resolveSlots (entry : Entry) (slots : List Nat) : Except CatalogueError (List Nat) :=
  match slots.find? fun n => !validSize n with
  | some n => .error (.invalid entry (.slotSize n))
  | none => .ok (descending slots)

namespace SkillsDraft

def find? (d : SkillsDraft) (id : String) : Option SkillId :=
  (d.skills.keys.findIdx? (· = id)).map SkillId.ofIndex

/-- Every skill has at least the states off and on. -/
def minStates : Nat := 2

def resolveSkill (d : SkillsDraft) (id : String) (s : SkillDraft) :
    Except CatalogueError Skill := do
  let secretLimit := s.secretLimit.getD s.limit
  demand (1 ≤ s.limit && s.limit ≤ secretLimit) (.skill id) (.limits s.limit secretLimit)
  let secretSkill ← s.secretSkill.mapM (refer (.skill id) .skill d.find?)
  return {
    id, name := s.name, normalLimit := s.limit, secretLimit
    states := max (s.states.getD minStates) minStates
    secretSkill }

def resolveStage (d : SkillsDraft) (id : String) (s : StageDraft) :
    Except CatalogueError Stage := do
  let skill ← refer (.bonus id) .skill d.find? s.skill
  demand (1 ≤ s.pieces && s.pieces ≤ maxPieces) (.bonus id) (.stage s.pieces)
  return { pieces := s.pieces, skill }

/-- A stated set bonus, its stages by ascending number of pieces. -/
def resolveBonus (d : SkillsDraft) (id : String) (b : BonusDraft) :
    Except CatalogueError SetBonus := do
  let stages ← b.stages.mapM (d.resolveStage id)
  return { id, name := b.name, stages := stages.mergeSort fun a b => a.pieces ≤ b.pieces }

def resolve (d : SkillsDraft) : Except CatalogueError SkillTable := do
  let skills ← d.skills.entries.mapM fun e => d.resolveSkill e.1 e.2
  let bonuses ← d.bonuses.entries.mapM fun e => d.resolveBonus e.1 e.2
  return {
    skills := skills.toArray
    bonuses := bonuses.toArray
    holder := PerEffect.ofFunction fun e => d.find? e.skillId }

end SkillsDraft

def DecorationDraft.resolve (t : SkillTable) (d : DecorationDraft) :
    Except CatalogueError Decoration := do
  let entry : Entry := .decoration d.id
  demand (validSize d.slotSize) entry (.decorationSize d.slotSize)
  demand (!d.skills.isEmpty) entry .noSkills
  let skills ← t.referAll entry d.skills.entries
  return { id := d.id, name := d.name, slotSize := d.slotSize, skills }

namespace ArmourSetDraft

def resolvePiece (t : SkillTable) (d : ArmourSetDraft) (bonus : Option BonusId) (slot : Slot)
    (p : PieceDraft) : Except CatalogueError Piece := do
  let entry : Entry := .piece d.setName d.variant slot
  let skills ← t.referAll entry p.skills.entries
  let decoSlots ← resolveSlots entry p.slots
  return { setName := d.setName, variant := d.variant, slot, skills, decoSlots, bonus }

/-- The pieces of a stated set, head to legs. -/
def resolve (t : SkillTable) (d : ArmourSetDraft) : Except CatalogueError (List Piece) := do
  let bonus ← d.bonus.mapM (refer (.armourSet d.setName d.variant) .bonus t.findBonus?)
  d.pieces.entries.mapM fun e => d.resolvePiece t bonus e.1 e.2

end ArmourSetDraft

def CharmDraft.resolve (t : SkillTable) (d : CharmDraft) : Except CatalogueError Charm := do
  let entry : Entry := .charm d.id
  demand (1 ≤ d.maxLevel) entry .charmLevel
  let skills ← d.skills.mapM (refer entry .skill t.findSkill?)
  return { id := d.id, name := d.name, maxLevel := d.maxLevel, skills }

def UpgradesDraft.resolve (t : SkillTable) (entry : Entry) :
    UpgradesDraft → Except CatalogueError UpgradeScheme
  | .none => .ok .none
  | .custom => .ok .custom
  | .awakening options => do return .awakening (← options.mapM (refer entry .bonus t.findBonus?))

def WeaponDraft.resolve (t : SkillTable) (d : WeaponDraft) : Except CatalogueError Weapon := do
  let entry : Entry := .weapon d.id
  demand (1 ≤ d.trueRaw) entry .noRaw
  demand (d.weaponClass.isRanged == d.gauge.isNone) entry (.gauge d.weaponClass)
  demand d.element.consistent entry .element
  let decoSlots ← resolveSlots entry d.slots
  let skill ← d.skill.mapM (refer entry .skill t.findSkill?)
  let upgrades ← d.upgrades.resolve t entry
  return {
    id := d.id, name := d.name, weaponClass := d.weaponClass, rarity := d.rarity
    trueRaw := d.trueRaw, affinity := d.affinity, skill, decoSlots, element := d.element
    gauge := d.gauge, constantSharpness := d.constantSharpness, augments := d.augments, upgrades }

/-- The first entry of a list that an earlier entry equals. -/
def firstRepeat {α : Type} [BEq α] : List α → List α → Option α
  | _, [] => none
  | seen, a :: rest => if seen.contains a then some a else firstRepeat (a :: seen) rest

def demandUnique (kind : Kind) (ids : List String) : Except CatalogueError Unit :=
  match firstRepeat [] ids with
  | some id => .error (.duplicate kind id)
  | none => .ok ()

def Piece.key (p : Piece) : String × Variant × Slot := (p.setName, p.variant, p.slot)

/-- Refuses two pieces of one set and variant for one slot. -/
def demandUniquePieces (pieces : List Piece) : Except CatalogueError Unit :=
  match firstRepeat [] (pieces.map Piece.key) with
  | some (setName, variant, slot) =>
      .error (.duplicate .piece (Piece.shownName setName slot variant))
  | none => .ok ()

def CatalogueDraft.resolve (d : CatalogueDraft) : Except CatalogueError Catalogue := do
  let skills ← d.skills.resolve
  let decorations ← d.decorations.mapM (DecorationDraft.resolve skills)
  let pieces := (← d.armour.mapM (ArmourSetDraft.resolve skills)).flatten
  let charms ← d.charms.mapM (CharmDraft.resolve skills)
  let weapons ← d.weapons.mapM (WeaponDraft.resolve skills)
  -- ids are compared once every table has resolved
  demandUnique .decoration (decorations.map (·.id))
  demandUnique .charm (charms.map (·.id))
  demandUnique .weapon (weapons.map (·.id))
  demandUnique .buff (d.buffs.map (·.id))
  demandUniquePieces pieces
  return {
    skills
    decorations := decorations.toArray
    pieces := pieces.toArray
    charms := charms.toArray
    weapons := weapons.toArray
    buffs := d.buffs.toArray }

end Loadout
