import Loadout.Buff
import Loadout.Damage.Modifiers

/-!
# Effective attack

Effective raw attack is raw attack after all factors, averaged over critical hits: raw attack is
multiplied and rounded, flat attack is added, the sum is cut at twice the weapon's own raw attack,
and affinity, sharpness and frostcraft multiply the rest.  Effective element is the element after
sharpness, of a hidden element the share that is awake.
-/

namespace Loadout

/-- Every number that effective attack depends on. -/
structure AttackInputs (R : Type) where
  raw : Nat
  affinity : Int
  element : Element
  baseFactor : R
  frostcraftFactor : R
  bludgeonerRaw : Nat
  addedRaw : Nat
  addedAffinity : Int
  criticalFactor : R
  gauge : Option Gauge
  freeElementPercent : Nat

structure Effective (R : Type) where
  affinity : Int
  gauge : Option Gauge
  /-- Raw attack before the cut, as a share of the cut. -/
  capShare : R
  raw : R
  element : R
  elementKind : ElementKind

namespace Effective

/-- Raw attack is cut at this multiple of the weapon's own. -/
def capMultiple : Nat := 2

/-- The factor of a feeble hit, in percent. -/
def feeblePercent : Int := 75

variable {R : Type} [Reckoning R]

def rawSharpness (g : Gauge) : R := Reckoning.percent (Gauge.rawHundredths.getD g.top 0)

def elementSharpness (g : Gauge) : R :=
  Reckoning.ofInt (Gauge.elementTenThousandths.getD g.top 0) / Reckoning.ofInt 10000

/-- The mean factor of hits of which a share between none and all is multiplied. -/
def mixed (factor share : R) : R := factor * share + (Reckoning.one - share)

/-- The mean factor of affinity: critical hits above zero, feeble ones below, at most always. -/
def affinityFactor (affinity : Int) (critical : R) : R :=
  if affinity < 0 then
    mixed (Reckoning.percent feeblePercent) (Reckoning.percent (min (-affinity) 100))
  else mixed critical (Reckoning.percent (min affinity 100))

def elementFactor (e : Element) (gauge : Option Gauge) : R :=
  match gauge with
  | some g =>
      if e.visibility ≠ .none ∧ e.kind.isElement then elementSharpness g else Reckoning.one
  | none => Reckoning.one

def awakeElement (e : Element) (percent : Nat) : Except Fault Nat :=
  match e.visibility with
  | .hidden => do return (← Fault.word (e.value * percent)) / 100
  | _ => .ok e.value

def uncutRaw (a : AttackInputs R) : Except Fault Nat := do
  -- the product is rounded before flat attack is added
  let base ← Fault.word (a.raw + a.bludgeonerRaw)
  Fault.word (Reckoning.toWord (Reckoning.ofInt base * a.baseFactor) + a.addedRaw)

def ofInputs (a : AttackInputs R) : Except Fault (Effective R) := do
  let affinity ← Fault.signed (a.affinity + a.addedAffinity)
  let cap ← Fault.word (a.raw * capMultiple)
  let uncut ← uncutRaw a
  let element ← awakeElement a.element a.freeElementPercent
  let sharpness : R := (a.gauge.map rawSharpness).getD Reckoning.one
  return {
    affinity
    gauge := a.gauge
    capShare := Reckoning.ofInt uncut / Reckoning.ofInt cap
    raw := Reckoning.ofInt (min uncut cap) * affinityFactor affinity a.criticalFactor * sharpness *
      a.frostcraftFactor
    element := Reckoning.ofInt element * elementFactor a.element a.gauge
    elementKind := a.element.kind }

end Effective

structure Boost (R : Type) where
  addedRaw : Nat
  factor : R

def Consumables.boost {R : Type} [Reckoning R] (c : Consumables) : Boost R :=
  ⟨c.addedRaw, Buff.multiplierOf c.buffs⟩

namespace Effective

variable {R : Type} [Reckoning R]

def ofLevels (t : SkillTable) (r : Requirements) (boost : Boost R) (weaponClass : WeaponClass)
    (stats : WeaponStats) (levels : SkillLevels) : Except Fault (Effective R) := do
  let m ← Modifiers.resolve t r weaponClass stats levels
  ofInputs {
    raw := stats.raw
    affinity := stats.affinity
    element := stats.element
    baseFactor := m.baseFactor * boost.factor
    frostcraftFactor := m.frostcraftFactor
    bludgeonerRaw := m.bludgeonerRaw
    addedRaw := ← Fault.word (m.addedRaw + boost.addedRaw)
    addedAffinity := m.addedAffinity
    criticalFactor := m.criticalFactor
    gauge := m.gauge
    freeElementPercent := m.freeElementPercent }

end Effective

end Loadout
