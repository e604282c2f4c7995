import Loadout.Proofs.AttackOrder

/-!
# The order of skill levels

Every skill but handicraft acts through tables that never fall, so higher levels are never worse as
long as handicraft stays where it is.  Handicraft itself is left aside: it makes the blade sharper,
and bludgeoner gives less to a sharper blade.  Where the blades differ, on two weapons or at two
levels of handicraft, they are compared by what sharpness and bludgeoner make of them.
-/

namespace Loadout

namespace Modifiers

theorem getD_mono {table : List Nat} (h : table.Pairwise (· ≤ ·)) {i j : Nat} (hij : i ≤ j)
    (hj : j < table.length) : table.getD i 0 ≤ table.getD j 0 := by
  have hi : i < table.length := hij.trans_lt hj
  rw [← List.getElem_eq_getD (h := hi) 0, ← List.getElem_eq_getD (h := hj) 0]
  rcases hij.eq_or_lt with rfl | hlt
  · exact Nat.le_refl _
  · exact List.pairwise_iff_getElem.1 h i j hi hj hlt

theorem entry_mono {table : List Nat} (h : table.Pairwise (· ≤ ·)) {m n : Nat} (hmn : m ≤ n) :
    entry table m ≤ entry table n := by
  unfold entry
  by_cases hm : m = 0
  · rw [if_pos hm]
    exact Nat.zero_le _
  · rw [if_neg hm, if_neg (by omega)]
    cases table with
    | nil => exact Nat.le_refl _
    | cons first rest =>
        refine getD_mono h (by omega) ?_
        rw [List.length_cons]
        omega

def guardFactor (level : Nat) : Rat :=
  if 0 < level then Reckoning.percent (entry offensiveGuardPercent level) else 1

theorem one_le_guardFactor (level : Nat) : 1 ≤ guardFactor level := by
  unfold guardFactor
  split
  next hlevel =>
    have hfirst : entry offensiveGuardPercent 1 ≤ entry offensiveGuardPercent level :=
      entry_mono (by decide) hlevel
    have hpercent : (105 : Rat) ≤ (entry offensiveGuardPercent level : Nat) := by
      exact_mod_cast hfirst
    rw [Reckoning.percent_rat, Int.cast_natCast]
    linarith
  next => exact le_rfl

theorem guardFactor_mono {m n : Nat} (h : m ≤ n) : guardFactor m ≤ guardFactor n := by
  by_cases hm : 0 < m
  · have hentry :
        ((entry offensiveGuardPercent m : Nat) : Rat) ≤ entry offensiveGuardPercent n := by
      exact_mod_cast entry_mono (by decide) h
    rw [guardFactor, guardFactor, if_pos hm, if_pos (hm.trans_le h), Reckoning.percent_rat,
      Reckoning.percent_rat, Int.cast_natCast, Int.cast_natCast]
    linarith
  · rw [guardFactor, if_neg hm]
    exact one_le_guardFactor n

/-- The raw attack that bludgeoner adds, without regard to words. -/
def bludgeonerBonus (stats : WeaponStats) (level : Nat) (gauge : Option Gauge) : Nat :=
  match gauge with
  | some g => if 0 < level then stats.raw * bludgeonerPercent g / 100 else 0
  | none => 0

/-- Bludgeoner works out exactly if its product is a word. -/
theorem bludgeonerOf_eq_ok_iff {stats : WeaponStats} {level : Nat} {gauge : Option Gauge}
    {n : Nat} : bludgeonerOf stats level gauge = .ok n ↔
      (0 < level → ∀ g ∈ gauge, stats.raw * bludgeonerPercent g ≤ Fault.wordMax) ∧
        n = bludgeonerBonus stats level gauge := by
  unfold bludgeonerOf bludgeonerBonus
  cases gauge with
  | none => simp [eq_comm]
  | some g =>
      by_cases hlevel : 0 < level
      · simp only [if_pos hlevel, SuccessfulRun.bind_eq_ok_iff, Fault.word_eq_ok_iff, pure,
          Except.pure, Except.ok.injEq]
        simp [hlevel, eq_comm]
      · simp [hlevel, eq_comm]

theorem bludgeonerBonus_mono (stats : WeaponStats) {m n : Nat} (h : m ≤ n) (gauge : Option Gauge) :
    bludgeonerBonus stats m gauge ≤ bludgeonerBonus stats n gauge := by
  unfold bludgeonerBonus
  cases gauge with
  | none => exact Nat.le_refl _
  | some g =>
      by_cases hm : 0 < m
      · simp only [if_pos hm, if_pos (hm.trans_le h), le_refl]
      · simp only [if_neg hm, Nat.zero_le]

/-- The blade that is left at the level at which handicraft works. -/
def bladeOf (t : SkillTable) (r : Requirements) (stats : WeaponStats) (levels : SkillLevels) :
    Option Gauge :=
  gaugeOf stats (level t r levels .handicraft)

/-- The raw attack that bludgeoner adds for that blade. -/
def bludgeonerGain (t : SkillTable) (r : Requirements) (stats : WeaponStats)
    (levels : SkillLevels) : Nat :=
  bludgeonerBonus stats (level t r levels .bludgeoner) (bladeOf t r stats levels)

section Levels

variable {a b : PerEffect Nat}

theorem rawOf_mono (h : ∀ e, a.get e ≤ b.get e) : rawOf a ≤ rawOf b := by
  unfold rawOf
  gcongr
  · exact entry_mono (by decide) (h .attackBoost)
  · exact entry_mono (by decide) (h .agitator)
  · exact entry_mono (by decide) (h .peakPerformance)

theorem weaknessExploitAffinity_mono (t : SkillTable) (r : Requirements) {m n : Nat}
    (hmn : m ≤ n) : weaknessExploitAffinity t r m ≤ weaknessExploitAffinity t r n := by
  unfold weaknessExploitAffinity
  dsimp only
  split
  · exact entry_mono (by decide) hmn
  · exact entry_mono (by decide) hmn

theorem affinityOf_mono (t : SkillTable) (r : Requirements) (h : ∀ e, a.get e ≤ b.get e) :
    affinityOf t r a ≤ affinityOf t r b := by
  unfold affinityOf
  gcongr
  · exact entry_mono (by decide) (h .attackBoost)
  · exact entry_mono (by decide) (h .criticalEye)
  · exact weaknessExploitAffinity_mono t r (h .weaknessExploit)
  · exact entry_mono (by decide) (h .agitator)
  · exact entry_mono (by decide) (h .latentPower)
  · exact entry_mono (by decide) (h .maximumMight)

theorem baseFactorOf_eq (stats : WeaponStats) (level : PerEffect Nat) :
    baseFactorOf stats level = guardFactor level.offensiveGuard *
      if 0 < level.nonElementalBoost ∧ stats.element.isRaw then 105 / 100 else 1 := by
  unfold baseFactorOf
  by_cases hboost : 0 < level.nonElementalBoost ∧ stats.element.isRaw = true
  · rw [if_pos (by simpa using hboost), if_pos hboost]
    rfl
  · rw [if_neg (by simpa using hboost), if_neg hboost, mul_one]
    rfl

theorem one_le_baseFactorOf (stats : WeaponStats) (level : PerEffect Nat) :
    (1 : Rat) ≤ baseFactorOf stats level := by
  have := one_le_guardFactor level.offensiveGuard
  rw [baseFactorOf_eq]
  split <;> linarith

theorem baseFactorOf_mono {low high : WeaponStats}
    (hraw : low.element.isRaw = true → high.element.isRaw = true)
    (h : ∀ e, a.get e ≤ b.get e) : (baseFactorOf low a : Rat) ≤ baseFactorOf high b := by
  have hguard := guardFactor_mono (h .offensiveGuard)
  have hone := one_le_guardFactor (b.get .offensiveGuard)
  have hboost : 0 < a.nonElementalBoost → 0 < b.nonElementalBoost := fun hpos =>
    hpos.trans_le (h .nonElementalBoost)
  simp only [PerEffect.get] at hguard hone
  rw [baseFactorOf_eq, baseFactorOf_eq]
  split
  next ha =>
    rw [if_pos ⟨hboost ha.1, hraw ha.2⟩]
    linarith
  next => split <;> linarith

theorem one_le_frostcraftOf (weaponClass : WeaponClass) (level : PerEffect Nat) :
    (1 : Rat) ≤ frostcraftOf weaponClass level := by
  have hpercent : 100 ≤ frostcraftPercent weaponClass := by cases weaponClass <;> decide
  have hpercent : (100 : Rat) ≤ (frostcraftPercent weaponClass : Nat) := by exact_mod_cast hpercent
  unfold frostcraftOf
  split
  · rw [Reckoning.percent_rat, Int.cast_natCast]
    linarith
  · exact le_rfl

theorem frostcraftOf_mono (weaponClass : WeaponClass) (h : ∀ e, a.get e ≤ b.get e) :
    (frostcraftOf weaponClass a : Rat) ≤ frostcraftOf weaponClass b := by
  by_cases ha : 0 < a.frostcraft
  · have hb : 0 < b.frostcraft := ha.trans_le (h .frostcraft)
    rw [frostcraftOf, frostcraftOf, if_pos ha, if_pos hb]
  · rw [frostcraftOf, if_neg ha]
    exact one_le_frostcraftOf weaponClass b

def criticalFactorOf (level : PerEffect Nat) : Rat :=
  Reckoning.percent (criticalPercents.getD (min level.criticalBoost 3) 0)

theorem criticalFactorOf_mono (h : ∀ e, a.get e ≤ b.get e) :
    criticalFactorOf a ≤ criticalFactorOf b := by
  have hlength : min b.criticalBoost 3 < criticalPercents.length :=
    Nat.lt_succ_of_le (Nat.min_le_right _ 3)
  have hpercent := getD_mono (by decide) (min_le_min_right 3 (h .criticalBoost)) hlength
  have hpercent : ((criticalPercents.getD (min a.criticalBoost 3) 0 : Nat) : Rat) ≤
      criticalPercents.getD (min b.criticalBoost 3) 0 := by exact_mod_cast hpercent
  rw [criticalFactorOf, criticalFactorOf, Reckoning.percent_rat, Reckoning.percent_rat,
    Int.cast_natCast, Int.cast_natCast]
  linarith

theorem one_le_criticalFactorOf (level : PerEffect Nat) : 1 ≤ criticalFactorOf level := by
  have hnone : criticalFactorOf (.ofFunction fun _ => 0) ≤ criticalFactorOf level :=
    criticalFactorOf_mono fun e => by simp
  have hone : (1 : Rat) ≤ criticalFactorOf (.ofFunction fun _ => 0) := by decide +kernel
  exact hone.trans hnone

end Levels

/-- What levels add to a weapon, without regard to words. -/
def plain (t : SkillTable) (r : Requirements) (weaponClass : WeaponClass) (stats : WeaponStats)
    (level : PerEffect Nat) : Modifiers Rat where
  addedRaw := rawOf level
  addedAffinity := affinityOf t r level
  baseFactor := baseFactorOf stats level
  frostcraftFactor := frostcraftOf weaponClass level
  bludgeonerRaw := bludgeonerBonus stats level.bludgeoner (gaugeOf stats level.handicraft)
  criticalFactor := criticalFactorOf level
  gauge := gaugeOf stats level.handicraft
  freeElementPercent := entry freeElementPercents level.freeElement

theorem resolve_eq_ok {t : SkillTable} {r : Requirements} {weaponClass : WeaponClass}
    {stats : WeaponStats} {levels : SkillLevels} {m : Modifiers Rat}
    (h : resolve t r weaponClass stats levels = .ok m) :
    m = plain t r weaponClass stats (.ofFunction (level t r levels)) := by
  obtain ⟨bludgeonerRaw, hbludgeoner, h⟩ := SuccessfulRun.bind_eq_ok_iff.1 h
  obtain ⟨-, rfl⟩ := bludgeonerOf_eq_ok_iff.1 hbludgeoner
  exact (Except.ok.inj h).symm

end Modifiers

namespace Effective

variable {t : SkillTable} {r : Requirements} {boost : Boost Rat} {weaponClass : WeaponClass}
variable {stats : WeaponStats}

/-- Every number on which effective attack depends, for a weapon with what levels add to it. -/
def inputsOf (boost : Boost Rat) (stats : WeaponStats) (m : Modifiers Rat) :
    AttackInputs Rat where
  raw := stats.raw
  affinity := stats.affinity
  element := stats.element
  baseFactor := m.baseFactor * boost.factor
  frostcraftFactor := m.frostcraftFactor
  bludgeonerRaw := m.bludgeonerRaw
  addedRaw := m.addedRaw + boost.addedRaw
  addedAffinity := m.addedAffinity
  criticalFactor := m.criticalFactor
  gauge := m.gauge
  freeElementPercent := m.freeElementPercent

theorem ofLevels_eq_ok {levels : SkillLevels} {e : Effective Rat}
    (h : ofLevels t r boost weaponClass stats levels = .ok e) :
    ofInputs (inputsOf boost stats (Modifiers.plain t r weaponClass stats
      (.ofFunction (Modifiers.level t r levels)))) = .ok e := by
  obtain ⟨m, hm, h⟩ := SuccessfulRun.bind_eq_ok_iff.1 h
  obtain ⟨addedRaw, hadded, h⟩ := SuccessfulRun.bind_eq_ok_iff.1 h
  obtain ⟨rfl, -⟩ := Fault.word_eq_ok_iff.1 hadded
  cases Modifiers.resolve_eq_ok hm
  exact h

open Modifiers in
/-- Whether a weapon with some levels brings no more than another one with other levels.  The blade
and what bludgeoner adds for it are compared as they come out. -/
structure BringsNoMore (t : SkillTable) (r : Requirements) (low high : WeaponStats)
    (levels levels' : SkillLevels) : Prop where
  raw : low.raw ≤ high.raw
  affinity : low.affinity ≤ high.affinity
  isRaw : low.element.isRaw = true → high.element.isRaw = true
  level : ∀ x, level t r levels x ≤ level t r levels' x
  sharpness : sharpnessFactor (bladeOf t r low levels) ≤ sharpnessFactor (bladeOf t r high levels')
  bludgeoner : bludgeonerGain t r low levels ≤ bludgeonerGain t r high levels'

namespace BringsNoMore

variable {low high : WeaponStats} {levels levels' : SkillLevels}

theorem get_le (h : BringsNoMore t r low high levels levels') (x : Effect) :
    (PerEffect.ofFunction (Modifiers.level t r levels)).get x ≤
      (PerEffect.ofFunction (Modifiers.level t r levels')).get x := by
  rw [PerEffect.ofFunction_get, PerEffect.ofFunction_get]
  exact h.level x

theorem uncut_le (h : BringsNoMore t r low high levels levels') :
    uncut (inputsOf boost low (Modifiers.plain t r weaponClass low
        (.ofFunction (Modifiers.level t r levels)))) ≤
      uncut (inputsOf boost high (Modifiers.plain t r weaponClass high
        (.ofFunction (Modifiers.level t r levels')))) := by
  have hnonneg := zero_le_one.trans
    (Modifiers.one_le_baseFactorOf low (.ofFunction (Modifiers.level t r levels)))
  have hbase : ((low.raw + Modifiers.bludgeonerGain t r low levels : Nat) : Rat) *
        Modifiers.baseFactorOf low (.ofFunction (Modifiers.level t r levels)) ≤
      (high.raw + Modifiers.bludgeonerGain t r high levels' : Nat) *
        Modifiers.baseFactorOf high (.ofFunction (Modifiers.level t r levels')) :=
    mul_le_mul (by exact_mod_cast Nat.add_le_add h.raw h.bludgeoner)
      (Modifiers.baseFactorOf_mono h.isRaw h.get_le) hnonneg (Nat.cast_nonneg _)
  have hproduct := wordOfRat_mul_mono boost.factor (mul_nonneg (Nat.cast_nonneg _) hnonneg) hbase
  have hadded := Modifiers.rawOf_mono h.get_le
  simp only [mul_assoc] at hproduct
  exact Nat.add_le_add hproduct (Nat.add_le_add_right hadded _)

theorem noStronger (h : BringsNoMore t r low high levels levels') :
    NoStronger
      (inputsOf boost low (Modifiers.plain t r weaponClass low
        (.ofFunction (Modifiers.level t r levels))))
      (inputsOf boost high (Modifiers.plain t r weaponClass high
        (.ofFunction (Modifiers.level t r levels')))) where
  raw := h.raw
  uncut := h.uncut_le
  affinity :=
    Int.add_le_add h.affinity (Int.ofNat_le.2 (Modifiers.affinityOf_mono t r h.get_le))
  critical_ge_one := Modifiers.one_le_criticalFactorOf _
  critical := Modifiers.criticalFactorOf_mono h.get_le
  sharpness := h.sharpness
  frostcraft_nonneg := zero_le_one.trans (Modifiers.one_le_frostcraftOf weaponClass _)
  frostcraft := Modifiers.frostcraftOf_mono weaponClass h.get_le

theorem raw_le {e f : Effective Rat} (h : BringsNoMore t r low high levels levels')
    (he : ofLevels t r boost weaponClass low levels = .ok e)
    (hf : ofLevels t r boost weaponClass high levels' = .ok f) : e.raw ≤ f.raw :=
  h.noStronger.raw_le (ofLevels_eq_ok he) (ofLevels_eq_ok hf)

end BringsNoMore

/-- Levels that are nowhere lower, and the same for handicraft, bring no less. -/
theorem BringsNoMore.of_level_le {low high : SkillLevels}
    (hlevel : ∀ x, Modifiers.level t r low x ≤ Modifiers.level t r high x)
    (hhandicraft : Modifiers.level t r low .handicraft = Modifiers.level t r high .handicraft) :
    BringsNoMore t r stats stats low high := by
  have hblade : Modifiers.bladeOf t r stats low = Modifiers.bladeOf t r stats high :=
    congrArg (Modifiers.gaugeOf stats) hhandicraft
  have hgain : Modifiers.bludgeonerGain t r stats low ≤
      Modifiers.bludgeonerGain t r stats high := by
    rw [Modifiers.bludgeonerGain, Modifiers.bludgeonerGain, hblade]
    exact Modifiers.bludgeonerBonus_mono stats (hlevel .bludgeoner) _
  exact ⟨le_rfl, le_rfl, id, hlevel, (congrArg sharpnessFactor hblade).le, hgain⟩

/-- Levels that are nowhere lower, and the same for handicraft, give no less raw attack. -/
theorem raw_le_of_level_le {low high : SkillLevels} {e f : Effective Rat}
    (hlevel : ∀ x, Modifiers.level t r low x ≤ Modifiers.level t r high x)
    (hhandicraft : Modifiers.level t r low .handicraft = Modifiers.level t r high .handicraft)
    (he : ofLevels t r boost weaponClass stats low = .ok e)
    (hf : ofLevels t r boost weaponClass stats high = .ok f) : e.raw ≤ f.raw :=
  (BringsNoMore.of_level_le hlevel hhandicraft).raw_le he hf

end Effective

end Loadout
