import Loadout.Catalogue.Load

/-!
# Reviewing a catalogue

A review lists what is odd about a catalogue that loads: levels beyond a limit, skills that
nothing grants, set bonus stages that no build can reach, slots without armour, awakenings without
options.  A catalogue that does not load has its error as the only remark.
-/

namespace Loadout

inductive Severity where
  | error
  | warning
  | info
  deriving DecidableEq, Repr

def Severity.name : Severity → String
  | error => "error"
  | warning => "warning"
  | info => "info"

inductive Remark where
  | unloadable (dir : String) (error : CatalogueError)
  | beyondLimit (decoration : String) (level : Nat) (skill : String) (limit : Nat)
  | unobtainable (skill : String)
  | unreachableStage (bonus : String) (pieces sources : Nat)
  | stageAboveCap (bonus : String)
  | emptySlot (slot : Slot)
  | noOptions (weapon : String)
  deriving DecidableEq, Repr

namespace Remark

def severity : Remark → Severity
  | unloadable .. => .error
  | beyondLimit .. | unreachableStage .. | stageAboveCap _ | emptySlot _ => .warning
  | unobtainable _ | noOptions _ => .info

def subject : Remark → String
  | unloadable dir _ => dir
  | beyondLimit decoration _ _ _ => "decoration " ++ quoted decoration
  | unobtainable skill => "skill " ++ quoted skill
  | unreachableStage bonus _ _ | stageAboveCap bonus => "set bonus " ++ quoted bonus
  | emptySlot slot => "armour " ++ slot.name
  | noOptions weapon => "weapon " ++ quoted weapon

def message : Remark → String
  | unloadable _ error => error.message
  | beyondLimit _ level skill limit =>
      "grants " ++ toString level ++ " levels of " ++ skill ++ " (limit " ++ toString limit ++ ")"
  | unobtainable _ => "not granted by any decoration, armour, charm, weapon or set bonus"
  | unreachableStage _ pieces sources =>
      "stage at " ++ toString pieces ++ " pieces is unreachable: only " ++ toString sources ++
        " distinct sources carry the set"
  | stageAboveCap _ => "stage threshold above the piece cap"
  | emptySlot _ => "no pieces; every search will fail"
  | noOptions _ => "awakenings declared without set bonus options"

def line (r : Remark) : String :=
  "[" ++ r.severity.name ++ "] " ++ r.subject ++ ": " ++ r.message

end Remark

/-- The set bonuses that a weapon's awakenings offer; none if it has no awakenings. -/
def UpgradeScheme.options? : UpgradeScheme → Option (List BonusId)
  | .awakening options => some options
  | .none | .custom => Option.none

namespace Catalogue

def limitRemarks (c : Catalogue) : List Remark :=
  c.decorations.toList.flatMap fun d =>
    (d.skills.filter fun l => c.skills.cap l.1 < l.2).map fun l =>
      .beyondLimit d.id l.2 (c.skills.skill l.1).id (c.skills.cap l.1)

/-- Every skill that something grants, with repetitions. -/
def obtainable (c : Catalogue) : List SkillId :=
  c.decorations.toList.flatMap (fun d => d.skills.map (·.1)) ++
    c.pieces.toList.flatMap (fun p => p.skills.map (·.1)) ++
    c.charms.toList.flatMap (·.skills) ++ c.weapons.toList.filterMap (·.skill) ++
    c.skills.bonusIds.flatMap fun b => (c.skills.bonus b).stages.map (·.skill)

def skillRemarks (c : Catalogue) : List Remark :=
  let obtainable := c.obtainable
  (c.skills.skillIds.filter fun s => !obtainable.contains s).map fun s =>
    .unobtainable (c.skills.skill s).id

/-- The slots that have a piece with a set bonus, and one more if a weapon can add a piece of it. -/
def sources (c : Catalogue) (b : BonusId) : Nat :=
  (Slot.all.filter fun s => c.pieces.any fun p => p.slot = s && p.bonus = some b).length +
    (if c.weapons.any fun w => w.upgrades.options?.any (·.contains b) then 1 else 0)

def bonusRemarks (c : Catalogue) (b : BonusId) : List Remark :=
  let bonus := c.skills.bonus b
  let sources := c.sources b
  let unreachable := (bonus.stages.find? fun s => sources < s.pieces).map fun s =>
    Remark.unreachableStage bonus.id s.pieces sources
  let above :=
    if bonus.stages.any fun s => maxPieces < s.pieces then [.stageAboveCap bonus.id] else []
  unreachable.toList ++ above

def slotRemarks (c : Catalogue) : List Remark :=
  (Slot.all.filter fun s => !c.pieces.any fun p => p.slot = s).map .emptySlot

def weaponRemarks (c : Catalogue) : List Remark :=
  (c.weapons.toList.filter fun w => w.upgrades.options? == some []).map (.noOptions ·.id)

def review (c : Catalogue) : List Remark :=
  c.limitRemarks ++ c.skillRemarks ++ c.skills.bonusIds.flatMap c.bonusRemarks ++ c.slotRemarks ++
    c.weaponRemarks

def reviewDirectory {m : Type → Type} [Monad m] (files : FileReader m) (dir : String) :
    m (List Remark) := do
  match ← (Catalogue.load files dir).run with
  | .ok c => return c.review
  | .error e => return [.unloadable dir e]

end Catalogue

def Remark.count (severity : Severity) (remarks : List Remark) : Nat :=
  remarks.countP (·.severity = severity)

end Loadout
