import Loadout.Reckoning
import Loadout.Requirements
import Loadout.Weapon.Stats

/-!
# Modifiers

Skill levels act on damage through a few numbers.  A level counts as far as its limit allows: up to
the normal limit, or up to the secret limit while the secret skill is present, and not at all if the
skill is removed or switched off.
-/

namespace Loadout

structure Modifiers (R : Type) where
  addedRaw : Nat
  addedAffinity : Int
  baseFactor : R
  frostcraftFactor : R
  bludgeonerRaw : Nat
  criticalFactor : R
  gauge : Option Gauge
  freeElementPercent : Nat

namespace Modifiers

/-- The entry of a table for a level; level 0 has none, and the last entry serves all levels above.
-/
def entry (table : List Nat) (level : Nat) : Nat :=
  if level = 0 then 0 else table.getD (min (level - 1) (table.length - 1)) 0

def attackBoostRaw : List Nat := [3, 6, 9, 12, 15, 18, 21]

def attackBoostAffinity : List Nat := [0, 0, 0, 5, 5, 5, 5]

def criticalEyeAffinity : List Nat := [5, 10, 15, 20, 25, 30, 40]

def weakPointAffinity : List Nat := [15, 30, 50]

def woundAffinity : List Nat := [30, 45, 80]

def agitatorRaw : List Nat := [4, 8, 12, 16, 20, 24, 28]

def agitatorAffinity : List Nat := [5, 5, 7, 7, 10, 15, 20]

def peakPerformanceRaw : List Nat := [5, 10, 20]

def latentPowerAffinity : List Nat := [10, 20, 30, 40, 50]

def maximumMightAffinity : List Nat := [10, 20, 30]

def offensiveGuardPercent : List Nat := [105, 110, 115]

def freeElementPercents : List Nat := [33, 66, 100]

/-- The factor of critical hits in percent, from level 0 on. -/
def criticalPercents : List Nat := [125, 130, 135, 140]

def nonElementalPercent : Nat := 105

/-- The state in which weakness exploit asks for a weak point only, not for a wound. -/
def weakPointState : Nat := 1

/-- The factor of frostcraft in percent: heavy weapons gain most, ranged ones nothing. -/
def frostcraftPercent : WeaponClass → Nat
  | .greatsword | .hammer | .huntingHorn | .lance | .gunlance | .switchAxe | .chargeBlade => 115
  | .longsword | .swordAndShield | .dualBlades | .insectGlaive => 110
  | .bow | .lightBowgun | .heavyBowgun => 100

/-- The share of raw attack that bludgeoner adds, in percent: the blunter the blade the more. -/
def bludgeonerPercent (g : Gauge) : Nat :=
  match g.top with
  | 0 | 1 => 30
  | 2 => 25
  | 3 => 10
  | _ => 0

def present (r : Requirements) (levels : SkillLevels) (s : SkillId) : Bool :=
  !r.removes s && levels.has s

def usableLimit (t : SkillTable) (r : Requirements) (levels : SkillLevels) (s : SkillId) : Nat :=
  match (t.skill s).secretSkill with
  | some secret =>
      if present r levels secret then (t.skill s).secretLimit else (t.skill s).normalLimit
  | none => (t.skill s).normalLimit

def level (t : SkillTable) (r : Requirements) (levels : SkillLevels) (e : Effect) : Nat :=
  match t.holder e with
  | none => 0
  | some s =>
      if present r levels s && r.stateOf t s != 0 then
        min (levels.count s) (usableLimit t r levels s)
      else 0

/-- The affinity of weakness exploit, which depends on its state. -/
def weaknessExploitAffinity (t : SkillTable) (r : Requirements) (level : Nat) : Nat :=
  -- the state counts whether or not the skill has levels; level 0 gives nothing from either table
  let state := ((t.holder .weaknessExploit).map (r.stateOf t)).getD 0
  entry (if state = weakPointState then weakPointAffinity else woundAffinity) level

def rawOf (level : PerEffect Nat) : Nat :=
  entry attackBoostRaw level.attackBoost + entry agitatorRaw level.agitator +
    entry peakPerformanceRaw level.peakPerformance

def affinityOf (t : SkillTable) (r : Requirements) (level : PerEffect Nat) : Nat :=
  entry attackBoostAffinity level.attackBoost +
    entry criticalEyeAffinity level.criticalEye +
    weaknessExploitAffinity t r level.weaknessExploit +
    entry agitatorAffinity level.agitator + entry latentPowerAffinity level.latentPower +
    entry maximumMightAffinity level.maximumMight

def gaugeOf (stats : WeaponStats) (handicraft : Nat) : Option Gauge :=
  stats.gauge.map fun g => if stats.constantSharpness then g else g.withHandicraft handicraft

def bludgeonerOf (stats : WeaponStats) (level : Nat) (gauge : Option Gauge) : Except Fault Nat :=
  match gauge with
  | some g =>
      if 0 < level then do return (← Fault.word (stats.raw * bludgeonerPercent g)) / 100 else .ok 0
  | none => .ok 0

variable {R : Type} [Reckoning R]

/-- The factor of offensive guard and non-elemental boost on raw attack. -/
def baseFactorOf (stats : WeaponStats) (level : PerEffect Nat) : R :=
  let guard : R :=
    if 0 < level.offensiveGuard then
      Reckoning.percent (entry offensiveGuardPercent level.offensiveGuard)
    else Reckoning.one
  if 0 < level.nonElementalBoost && stats.element.isRaw then
    guard * Reckoning.percent nonElementalPercent
  else guard

def frostcraftOf (weaponClass : WeaponClass) (level : PerEffect Nat) : R :=
  if 0 < level.frostcraft then Reckoning.percent (frostcraftPercent weaponClass)
  else Reckoning.one

def resolve (t : SkillTable) (r : Requirements) (weaponClass : WeaponClass) (stats : WeaponStats)
    (levels : SkillLevels) : Except Fault (Modifiers R) := do
  let level := PerEffect.ofFunction (level t r levels)
  let gauge := gaugeOf stats level.handicraft
  let bludgeonerRaw ← bludgeonerOf stats level.bludgeoner gauge
  return {
    addedRaw := rawOf level
    addedAffinity := affinityOf t r level
    baseFactor := baseFactorOf stats level
    frostcraftFactor := frostcraftOf weaponClass level
    bludgeonerRaw
    criticalFactor := Reckoning.percent (criticalPercents.getD (min level.criticalBoost 3) 0)
    gauge
    freeElementPercent := entry freeElementPercents level.freeElement }

end Modifiers

end Loadout
