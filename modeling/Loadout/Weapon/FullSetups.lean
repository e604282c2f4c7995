import Loadout.Weapon.Setup

/-!
# Fully spent setups

The setups worth searching: every augment step is spent and every upgrade taken.  Leaving a step
or an upgrade out is never better, so nothing else needs to be tried.
-/

namespace Loadout

namespace Setup

/-- The ways to spend all steps on augments, health regeneration and slot being taken at most once.
-/
def fullSplits (total : Nat) : List Augments :=
  (List.range (min 1 total + 1)).flatMap fun healthRegen =>
    (List.range (min 1 (total - healthRegen) + 1)).flatMap fun slot =>
      let rest := total - healthRegen - slot
      (List.range (rest + 1)).map fun attack =>
        { level := total, attack, affinity := rest - attack, healthRegen, slot }

def fullAugments (w : Weapon) : List Augments :=
  match w.augments with
  | .none => [{}]
  | .iceborne => fullSplits maxAugmentLevel

/-- All custom upgrades, with at most one slot. -/
def fullCustom : List (List Upgrade) :=
  [0, 1].flatMap fun slots =>
    let rest := maxCustom - slots
    (List.range (rest + 1)).map fun attack =>
      List.replicate attack .customAttack ++ List.replicate (rest - attack) .customAffinity ++
        List.replicate slots .customSlot

/-- The choices of some items with repetition, later choices first. -/
def selections : List Upgrade → Nat → List (List Upgrade)
  | _, 0 => [[]]
  | [], _ + 1 => []
  | u :: rest, n + 1 => selections rest (n + 1) ++ (selections (u :: rest) n).map (u :: ·)

/-- The awakenings that are taken at most once: a slot and a set bonus. -/
def singles (options : List BonusId) : List (List Upgrade) :=
  [] :: [.slot] :: options.flatMap fun b => [[.bonus b], [.slot, .bonus b]]

/-- All awakenings: one of the sixth level, the single ones, and the fifth level for the rest. -/
def fullAwakenings (w : Weapon) (options : List BonusId) : List (List Upgrade) :=
  let sixes := [.attack6, .affinity6] ++ (if w.gauge.isSome then [Upgrade.sharpness6] else [])
  let fives := [.attack5, .affinity5] ++ (if w.gauge.isSome then [Upgrade.sharpness5] else [])
  sixes.flatMap fun six =>
    (singles options).flatMap fun single =>
      (selections fives (maxAwakenings - 1 - single.length)).map fun others =>
        six :: others ++ single

def fullUpgrades (w : Weapon) : List (List Upgrade) :=
  match w.upgrades with
  | .none => [[]]
  | .custom => fullCustom
  | .awakening options => fullAwakenings w options

def full (w : Weapon) : List Setup :=
  (fullAugments w).flatMap fun augments => (fullUpgrades w).map fun upgrades => ⟨augments, upgrades⟩

end Setup

end Loadout
