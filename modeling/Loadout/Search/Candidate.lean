import Loadout.Damage.Effective
import Loadout.Front
import Loadout.Request
import Loadout.Search.Error
import Loadout.Weapon.Dominance
import Loadout.Weapon.FullSetups

/-!
# Weapon candidates

The candidates of a search are the fully spent setups of all allowed weapons, less those that
another one dominates.  Each has a ceiling, the effective raw attack it would have with every
relevant skill at its secret limit, and the candidates with the highest ceilings come first.
-/

namespace Loadout

/-- A configured weapon with what counts of its stats, and its ceiling. -/
structure Candidate (R : Type) where
  weapon : ConfiguredWeapon
  stats : WeaponStats
  ceiling : R

/-- Stats without a skill or a set bonus that is not relevant. -/
def Requirements.restrictStats (r : Requirements) (s : WeaponStats) : WeaponStats :=
  { s with skill := s.skill.filter r.relevant, bonus := s.bonus.filter r.bonusRelevant }

namespace Candidate

variable {R : Type} [Reckoning R]

/-- Effective raw attack with every relevant skill at its limit. -/
def ceilingOf (t : SkillTable) (r : Requirements) (boost : Boost R) (weaponClass : WeaponClass)
    (stats : WeaponStats) : Except Fault R := do
  let maximum := r.maximumLevels t
  let reach (levels : SkillLevels) : Except Fault R := do
    return (← Effective.ofLevels t r boost weaponClass stats levels).raw
  -- a sharper blade takes from what bludgeoner adds, so every level of handicraft is tried
  match t.holder.handicraft.filter maximum.has with
  | none => reach maximum
  | some s =>
      let lowest ← reach (maximum.set s 0)
      (List.range (maximum.count s)).foldlM
        (fun best n => do return Reckoning.larger best (← reach (maximum.set s (n + 1)))) lowest

/-- Candidates by descending ceiling, equal ones in their order. -/
def arrange (candidates : List (Candidate R)) : List (Candidate R) :=
  candidates.mergeSort fun a b => !Reckoning.less a.ceiling b.ceiling

def retainAbove (bar : R) (candidates : List (Candidate R)) : List (Candidate R) :=
  candidates.filter fun w => Reckoning.less bar w.ceiling

end Candidate

namespace Request

/-- The weapons that may be used and have no removed skill. -/
def allowedWeapons (q : Request) (c : Catalogue) : List Weapon :=
  c.weapons.toList.filter fun w => q.allowsWeapon w && !w.skill.any q.requirements.removes

/-- The fully spent setups of the allowed weapons with what counts of their stats, those without
health regeneration left out if it is required. -/
def configurations (q : Request) (c : Catalogue) :
    Except Fault (List (ConfiguredWeapon × WeaponStats)) := do
  let configured : List ConfiguredWeapon :=
    (q.allowedWeapons c).flatMap fun w => (Setup.full w).map fun s => ⟨w, s⟩
  let all ← configured.mapM fun w => do return (w, ← w.stats)
  let healthy := all.filter fun w => !q.healthRegenRequired || w.2.healthRegen
  return healthy.map fun w => (w.1, q.requirements.restrictStats w.2)

def candidates {R : Type} [Reckoning R] (q : Request) (c : Catalogue) :
    Except SearchError (List (Candidate R)) := do
  let configurations ← SearchError.ofFault (q.configurations c)
  let kept := (Front.ofOffers (fun a b => a.2.dominates b.2) configurations).members
  if kept.isEmpty then throw (.noWeapons q.weaponClass)
  let boost : Boost R := q.consumables.boost
  let candidates ← SearchError.ofFault <| kept.mapM fun w => do
    let ceiling ← Candidate.ceilingOf c.skills q.requirements boost w.1.weapon.weaponClass w.2
    return { weapon := w.1, stats := w.2, ceiling }
  return Candidate.arrange candidates

end Request

end Loadout
