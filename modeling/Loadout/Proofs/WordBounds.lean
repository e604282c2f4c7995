import Loadout.Build
import Loadout.Proofs.LaidGroundwork
import Loadout.Proofs.ReorderedBuilds

/-!
# What keeps within words

Effective attack is worked out in words of fixed width, and no document bounds what goes into it.
Reckoning succeeds exactly within five bounds on the weapon, its levels and its consumables, and a
hit needs one more.  An accepted build always has stats, since its decorations were fitted to them,
but nothing keeps it within the bounds: a weapon of half a word of raw attack is accepted, and twice
that is not a word.
-/

namespace Loadout

namespace Modifiers

def maxBludgeonerPercent : Nat := 30

theorem bludgeonerPercent_le (g : Gauge) : bludgeonerPercent g ≤ maxBludgeonerPercent := by
  unfold bludgeonerPercent maxBludgeonerPercent
  split <;> omega

/-- Bludgeoner adds no more than the weapon has. -/
theorem bludgeonerBonus_le (stats : WeaponStats) (level : Nat) (gauge : Option Gauge) :
    bludgeonerBonus stats level gauge ≤ stats.raw := by
  unfold bludgeonerBonus
  cases gauge with
  | none => exact Nat.zero_le _
  | some g =>
      dsimp only
      split
      · have hproduct := Nat.mul_le_mul_left stats.raw (bludgeonerPercent_le g)
        unfold maxBludgeonerPercent at hproduct
        omega
      · exact Nat.zero_le _

end Modifiers

namespace Effective

open Modifiers

variable {R : Type} [Reckoning R]

/-- Whether all that effective attack is worked out from keeps within its word. -/
structure WithinWords (t : SkillTable) (r : Requirements) (boost : Boost R) (stats : WeaponStats)
    (level : PerEffect Nat) : Prop where
  bludgeoner : 0 < level.bludgeoner → ∀ g ∈ gaugeOf stats level.handicraft,
    stats.raw * bludgeonerPercent g ≤ Fault.wordMax
  affinity : stats.affinity + affinityOf t r level ≤ Fault.signedMax
  cap : stats.raw * capMultiple ≤ Fault.wordMax
  /-- The product moves into a word by itself, but flat attack is added to it. -/
  uncut : Reckoning.toWord (Reckoning.ofInt
        ((stats.raw + bludgeonerBonus stats level.bludgeoner (gaugeOf stats level.handicraft) :
          Nat) : Int) * (baseFactorOf stats level * boost.factor)) +
      (rawOf level + boost.addedRaw) ≤ Fault.wordMax
  element : stats.element.visibility = .hidden →
    stats.element.value * entry freeElementPercents level.freeElement ≤ Fault.wordMax

theorem exists_awakeElement_eq_ok_iff {e : Element} {percent : Nat} :
    (∃ n, awakeElement e percent = .ok n) ↔
      (e.visibility = .hidden → e.value * percent ≤ Fault.wordMax) := by
  unfold awakeElement
  cases e.visibility <;>
    simp [SuccessfulRun.exists_bind_eq_ok_iff, Fault.word_eq_ok_iff, pure, Except.pure]

variable {t : SkillTable} {r : Requirements} {boost : Boost R} {weaponClass : WeaponClass}
variable {stats : WeaponStats} {levels : SkillLevels}

theorem uncutRaw_eq_ok_iff {a : AttackInputs R} {n : Nat} : uncutRaw a = .ok n ↔
    a.raw + a.bludgeonerRaw ≤ Fault.wordMax ∧
      n = Reckoning.toWord (Reckoning.ofInt ((a.raw + a.bludgeonerRaw : Nat) : Int) *
        a.baseFactor) + a.addedRaw ∧ n ≤ Fault.wordMax := by
  simp only [uncutRaw, SuccessfulRun.bind_eq_ok_iff, Fault.word_eq_ok_iff]
  constructor
  · rintro ⟨base, ⟨rfl, hbase⟩, rfl, hsum⟩
    exact ⟨hbase, rfl, hsum⟩
  · rintro ⟨hbase, rfl, hsum⟩
    exact ⟨_, ⟨rfl, hbase⟩, rfl, hsum⟩

theorem exists_ofInputs_eq_ok_iff {a : AttackInputs R} : (∃ e, ofInputs a = .ok e) ↔
    (Fault.signedMin ≤ a.affinity + a.addedAffinity ∧
        a.affinity + a.addedAffinity ≤ Fault.signedMax) ∧
      a.raw * capMultiple ≤ Fault.wordMax ∧ (∃ n, uncutRaw a = .ok n) ∧
      (a.element.visibility = .hidden →
        a.element.value * a.freeElementPercent ≤ Fault.wordMax) := by
  simp only [ofInputs, SuccessfulRun.exists_bind_eq_ok_iff, pure, Except.pure, Except.ok.injEq,
    exists_eq', and_true, exists_awakeElement_eq_ok_iff, Fault.signed_eq_ok_iff,
    Fault.word_eq_ok_iff, exists_and_right, exists_eq, true_and, and_assoc]

/-- What a weapon and its levels come to can be worked out exactly within the bounds. -/
theorem exists_ofLevels_eq_ok_iff (hmin : Fault.signedMin ≤ stats.affinity) :
    (∃ e, ofLevels t r boost weaponClass stats levels = .ok e) ↔
      WithinWords t r boost stats (.ofFunction (level t r levels)) := by
  constructor
  · rintro ⟨e, h⟩
    obtain ⟨m, hm, h⟩ := SuccessfulRun.bind_eq_ok_iff.1 h
    obtain ⟨bonus, hbonus, hm⟩ := SuccessfulRun.bind_eq_ok_iff.1 hm
    obtain ⟨hbludgeoner, rfl⟩ := bludgeonerOf_eq_ok_iff.1 hbonus
    cases hm
    obtain ⟨added, hadded, h⟩ := SuccessfulRun.bind_eq_ok_iff.1 h
    obtain ⟨rfl, -⟩ := Fault.word_eq_ok_iff.1 hadded
    obtain ⟨haffinity, hcap, ⟨n, huncut⟩, helement⟩ := exists_ofInputs_eq_ok_iff.1 ⟨e, h⟩
    obtain ⟨-, rfl, hsum⟩ := uncutRaw_eq_ok_iff.1 huncut
    exact ⟨hbludgeoner, haffinity.2, hcap, hsum, helement⟩
  · intro h
    have hbonus := bludgeonerOf_eq_ok_iff.2 ⟨h.bludgeoner, rfl⟩
    -- flat attack by itself is below the sum that it becomes part of
    have hadded : Fault.word (rawOf (.ofFunction (level t r levels)) + boost.addedRaw) = .ok _ :=
      Fault.word_eq_ok_iff.2 ⟨rfl, (Nat.le_add_left _ _).trans h.uncut⟩
    refine SuccessfulRun.exists_bind_eq_ok_iff.2
      ⟨_, SuccessfulRun.bind_eq_ok_iff.2 ⟨_, hbonus, rfl⟩,
        SuccessfulRun.exists_bind_eq_ok_iff.2 ⟨_, hadded, exists_ofInputs_eq_ok_iff.2 ?_⟩⟩
    refine ⟨⟨?_, h.affinity⟩, h.cap, ⟨_, uncutRaw_eq_ok_iff.2 ⟨?_, rfl, h.uncut⟩⟩, h.element⟩
    · dsimp only
      omega
    · -- bludgeoner at most doubles raw attack, as the cap does
      have hbonus : bludgeonerGain t r stats levels ≤ stats.raw := bludgeonerBonus_le ..
      have hcap : stats.raw * 2 ≤ Fault.wordMax := h.cap
      change stats.raw + bludgeonerGain t r stats levels ≤ Fault.wordMax
      omega

end Effective

theorem InputError.ofFault_eq_ok_iff {α : Type} {run : Except Fault α} {a : α} :
    ofFault run = .ok a ↔ run = .ok a := by
  cases run <;> simp [ofFault]

namespace Build

variable {R : Type} [Reckoning R] {c : Catalogue} {d : BuildDraft} {b : Build}

/-- The levels at which the skills of a build work. -/
def workingLevels (c : Catalogue) (b : Build) (stats : WeaponStats) : PerEffect Nat :=
  .ofFunction (Modifiers.level c.skills b.requirements
    (c.gearLevels stats b.outfit b.decorations))

/-- Decorations are fitted to the stats of the weapon, so an accepted build has stats. -/
theorem exists_stats (h : resolve c d = .ok b) : ∃ stats, b.weapon.stats = .ok stats := by
  obtain ⟨weapon, -, h⟩ := SuccessfulRun.bind_eq_ok_iff.1 h
  obtain ⟨outfit, -, h⟩ := SuccessfulRun.bind_eq_ok_iff.1 h
  obtain ⟨decorations, -, h⟩ := SuccessfulRun.bind_eq_ok_iff.1 h
  obtain ⟨stats, hstats, h⟩ := SuccessfulRun.bind_eq_ok_iff.1 h
  have hstats := InputError.ofFault_eq_ok_iff.1 hstats
  split at h
  · -- decorations that do not fit are refused
    cases h
  · obtain ⟨consumables, -, h⟩ := SuccessfulRun.bind_eq_ok_iff.1 h
    obtain ⟨requirements, -, h⟩ := SuccessfulRun.bind_eq_ok_iff.1 h
    cases h
    exact ⟨stats, hstats⟩

theorem exists_hit_iff {m : DamageModel} {e : Effective R} :
    (∃ hit, Hit.ofEffective m e = .ok hit) ↔
      Reckoning.toWord (e.raw / Reckoning.ofInt 100 * Reckoning.ofInt m.motionValue *
          Reckoning.percent m.hitzoneRaw) +
        Reckoning.toWord (Hit.elementDamage m e.element e.elementKind) ≤ Fault.wordMax := by
  simp only [Hit.ofEffective, SuccessfulRun.exists_bind_eq_ok_iff, Fault.word_eq_ok_iff, pure,
    Except.pure, Except.ok.injEq, exists_eq', and_true, exists_and_right, exists_eq, true_and]

/-- An accepted build always has stats.  It has effective attack exactly if all it is worked out
from keeps within its word, and then a hit exactly if the sum of its rounded parts does. -/
theorem evaluates_iff_within_words (h : resolve c d = .ok b) :
    ∃ stats, b.weapon.stats = .ok stats ∧
      ((∃ e : Effective R, c.gearEffective b.requirements b.consumables.boost b.weapon b.outfit
          b.decorations = .ok e) ↔
        Effective.WithinWords c.skills b.requirements (b.consumables.boost : Boost R) stats
          (b.workingLevels c stats)) ∧
      ∀ e : Effective R, c.gearEffective b.requirements b.consumables.boost b.weapon b.outfit
          b.decorations = .ok e → ∀ m ∈ b.damageModel,
        (∃ hit, Hit.ofEffective m e = .ok hit) ↔
          Reckoning.toWord (e.raw / Reckoning.ofInt 100 * Reckoning.ofInt m.motionValue *
              Reckoning.percent m.hitzoneRaw) +
            Reckoning.toWord (Hit.elementDamage m e.element e.elementKind) ≤ Fault.wordMax := by
  obtain ⟨stats, hstats⟩ := exists_stats h
  have heffective : c.gearEffective b.requirements (b.consumables.boost : Boost R) b.weapon
      b.outfit b.decorations = Effective.ofLevels c.skills b.requirements b.consumables.boost
        b.weapon.weapon.weaponClass stats (c.gearLevels stats b.outfit b.decorations) := by
    rw [Catalogue.gearEffective, hstats]
    rfl
  refine ⟨stats, hstats, ?_, fun e _ m _ => exists_hit_iff⟩
  rw [heffective]
  exact Effective.exists_ofLevels_eq_ok_iff (Setup.signedMin_le_affinity hstats)

/-- A bow, a headpiece and a jewel in it, against a target that takes all raw damage. -/
def bowDraft : BuildDraft where
  weapon := ⟨"BOW", 0, ∅, []⟩
  armour := .ofList [(.head, ⟨"Guild", .low⟩)]
  charm := none
  decorations := ["ATTACK_JEWEL"]
  buffs := []
  requirements := ⟨∅, ∅, [], ∅⟩
  damageModel := some ⟨100, fun _ => none, 100, fun _ => 0⟩

theorem evaluates_iff_within_words_bow : ∃ c b stats, archerDraft.resolve = .ok c ∧
    resolve c bowDraft = .ok b ∧ b.weapon.stats = .ok stats ∧
      Effective.WithinWords c.skills b.requirements (b.consumables.boost : Boost Rat) stats
        (b.workingLevels c stats) ∧
      ∃ e : Effective Rat, c.gearEffective b.requirements b.consumables.boost b.weapon b.outfit
        b.decorations = .ok e ∧ ∀ m ∈ b.damageModel, ∃ hit, Hit.ofEffective m e = .ok hit := by
  have hrun : (archerDraft.resolve.toOption.bind fun c =>
      (resolve c bowDraft).toOption.bind fun b =>
        (c.gearEffective b.requirements (b.consumables.boost : Boost Rat) b.weapon b.outfit
          b.decorations).toOption.map fun e =>
            b.damageModel.all fun m => decide (Reckoning.toWord (e.raw / Reckoning.ofInt 100 *
              Reckoning.ofInt m.motionValue * Reckoning.percent m.hitzoneRaw) +
                Reckoning.toWord (Hit.elementDamage m e.element e.elementKind) ≤
                  Fault.wordMax)) = some true := by
    simp only [resolve, Catalogue.decorationsFit, Catalogue.sizesFit, Catalogue.gearEffective,
      ConfiguredWeapon.stats, Setup.stats, descending_eq_insertionSort]
    decide +kernel
  obtain ⟨c, hc, hrun⟩ := Option.bind_eq_some_iff.1 hrun
  obtain ⟨b, hb, hrun⟩ := Option.bind_eq_some_iff.1 hrun
  obtain ⟨e, he, hrun⟩ := Option.map_eq_some_iff.1 hrun
  have hb := SuccessfulRun.toOption_eq_some_iff.1 hb
  have he := SuccessfulRun.toOption_eq_some_iff.1 he
  obtain ⟨stats, hstats, hwords, hhit⟩ := evaluates_iff_within_words (R := Rat) hb
  refine ⟨c, b, stats, SuccessfulRun.toOption_eq_some_iff.1 hc, hb, hstats, hwords.1 ⟨e, he⟩, e, he,
    fun m hm => ?_⟩
  rw [hm] at hrun
  exact (hhit e he m hm).2 (of_decide_eq_true hrun)

/-- The bow with half a word of raw attack. -/
def heavyDraft : CatalogueDraft :=
  { archerDraft with weapons := archerDraft.weapons.map fun w => { w with trueRaw := 2147483648 } }

/-- The heavy bow loads and its build is accepted, but twice its raw attack is not a word. -/
theorem heavy_build_overflows : ∃ c b stats, heavyDraft.resolve = .ok c ∧
    resolve c bowDraft = .ok b ∧ b.weapon.stats = .ok stats ∧
      (c.gearEffective b.requirements b.consumables.boost b.weapon b.outfit b.decorations :
        Except Fault (Effective Float)) = .error .overflow := by
  have hrun : (heavyDraft.resolve.toOption.bind fun c =>
      (resolve c bowDraft).toOption.map fun b =>
        match (c.gearEffective b.requirements b.consumables.boost b.weapon b.outfit b.decorations :
            Except Fault (Effective Float)) with
        | .ok _ => none
        | .error f => some f) = some (some .overflow) := by
    simp only [resolve, Catalogue.decorationsFit, Catalogue.sizesFit, Catalogue.gearEffective,
      ConfiguredWeapon.stats, Setup.stats, descending_eq_insertionSort]
    decide +kernel
  obtain ⟨c, hc, hrun⟩ := Option.bind_eq_some_iff.1 hrun
  obtain ⟨b, hb, hrun⟩ := Option.map_eq_some_iff.1 hrun
  have hb := SuccessfulRun.toOption_eq_some_iff.1 hb
  obtain ⟨stats, hstats⟩ := exists_stats hb
  refine ⟨c, b, stats, SuccessfulRun.toOption_eq_some_iff.1 hc, hb, hstats, ?_⟩
  split at hrun
  · cases hrun
  next hfault => rw [hfault, Option.some.inj hrun]

end Build

end Loadout
