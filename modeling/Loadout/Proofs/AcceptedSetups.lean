import Loadout.Proofs.SuccessfulRun
import Loadout.Weapon.FullSetups
import Mathlib.Data.List.Count
import Mathlib.Data.List.Induction

/-!
# Accepted setups

A setup keeps the rules if its augments are paid for by an allowed level and its upgrades suit the
weapon, few enough of every sort.  Upgrades are accepted one after the other exactly if they keep
the rules together, and whatever keeps the rules can be chosen anew without a refusal.  All fully
spent setups keep the rules.
-/

namespace Loadout

namespace Setup

/-- Makes the choices of a setup anew: the level, the augments, then the upgrades in their order. -/
def replay (w : Weapon) (s : Setup) : Except Refusal Setup := do
  let leveled ← fresh.setLevel w s.augments.level
  let augmented ← Augment.all.foldlM (fun t a => t.setAugment a (s.augments.count a)) leveled
  s.upgrades.foldlM (fun t u => t.addUpgrade w u) augmented

/-- Whether a level may be given to a weapon and pays for the augments. -/
structure AugmentsKept (w : Weapon) (a : Augments) : Prop where
  offered : w.augments = .none → a.level = 0
  level : a.level ≤ maxAugmentLevel
  paid : a.spent ≤ a.level
  healthRegen : a.healthRegen ≤ 1
  slot : a.slot ≤ 1

/-- The rules for awakenings, slots left out. -/
structure AwakeningsKept (w : Weapon) (options : List BonusId) (us : List Upgrade) : Prop where
  awakenings : ∀ u ∈ us, u.isCustom = false
  length : us.length ≤ maxAwakenings
  levelSix : us.countP Upgrade.isLevelSix ≤ 1
  sharpness : ∀ u ∈ us, u.isSharpness = true → w.gauge.isNone = false
  offered : ∀ u ∈ us, ∀ b, u.bonus? = some b → b ∈ options
  bonus : us.countP (·.bonus?.isSome) ≤ 1

def SchemeKept (w : Weapon) (us : List Upgrade) : Prop :=
  match w.upgrades with
  | .none => us = []
  | .custom => (∀ u ∈ us, u.isCustom = true) ∧ us.length ≤ maxCustom
  | .awakening options => AwakeningsKept w options us

/-- Whether a setup keeps all rules for a weapon. -/
structure Kept (w : Weapon) (s : Setup) : Prop where
  augments : AugmentsKept w s.augments
  scheme : SchemeKept w s.upgrades
  slot : s.upgrades.countP Upgrade.isSlot ≤ 1

section Choosing

variable {w : Weapon} {s t : Setup} {a : Augments} {us : List Upgrade} {u : Upgrade}

theorem setLevel_eq_ok_iff {n : Nat} :
    s.setLevel w n = .ok t ↔ (w.augments = .none → n = 0) ∧ n ≤ maxAugmentLevel ∧
      s.augments.spent ≤ n ∧ { s with augments.level := n } = t := by
  simp only [setLevel, SuccessfulRun.ite_error_eq_ok_iff, not_and, Nat.not_lt, Nat.le_zero,
    Except.ok.injEq]

theorem setAugment_eq_ok_iff {augment : Augment} {n : Nat} :
    s.setAugment augment n = .ok t ↔ (augment.single = true → n ≤ 1) ∧
      (s.augments.withCount n augment).spent ≤ (s.augments.withCount n augment).level ∧
      { s with augments := s.augments.withCount n augment } = t := by
  simp only [setAugment, SuccessfulRun.ite_error_eq_ok_iff, not_and, Nat.not_lt, Except.ok.injEq]

theorem ite_refusal_eq_none_iff {p : Prop} [Decidable p] {refusal : Refusal}
    {rest : Option Refusal} :
    (if p then some refusal else rest) = none ↔ ¬ p ∧ rest = none := by
  split
  next hp => simp [hp]
  next hp => simp [hp]

theorem hasUpgrade_eq_false_iff {sort : Upgrade → Bool} :
    (⟨a, us⟩ : Setup).hasUpgrade sort = false ↔ us.countP sort = 0 := by
  rw [hasUpgrade, List.any_eq_false, List.countP_eq_zero]

/-- What may be taken once has not been taken before it is taken. -/
theorem countP_append_le_one_iff {sort : Upgrade → Bool} :
    (us ++ [u]).countP sort ≤ 1 ↔
      us.countP sort ≤ 1 ∧ (sort u = true → us.countP sort = 0) := by
  rw [List.countP_append, List.countP_singleton]
  split
  next hu =>
    simp only [hu, forall_const]
    omega
  next hu => simp [hu]

theorem customRefusal_eq_none_iff :
    customRefusal ⟨a, us⟩ u = none ↔ u.isCustom = true ∧ us.length < maxCustom := by
  simp only [customRefusal, ite_refusal_eq_none_iff, Bool.not_eq_true', Bool.not_eq_false,
    Nat.not_le, and_true]

theorem bonusRefusal_eq_none_iff {options : List BonusId} {b : BonusId} :
    bonusRefusal ⟨a, us⟩ options b = none ↔ b ∈ options ∧ us.countP (·.bonus?.isSome) = 0 := by
  simp only [bonusRefusal, ite_refusal_eq_none_iff, not_not, Bool.not_eq_true,
    hasUpgrade_eq_false_iff, and_true]

theorem awakeningRefusal_eq_none_iff {options : List BonusId} :
    awakeningRefusal w ⟨a, us⟩ options u = none ↔ u.isCustom = false ∧
      us.length < maxAwakenings ∧ (u.isLevelSix = true → us.countP Upgrade.isLevelSix = 0) ∧
      (u.isSharpness = true → w.gauge.isNone = false) ∧
      ∀ b, u.bonus? = some b → b ∈ options ∧ us.countP (·.bonus?.isSome) = 0 := by
  simp only [awakeningRefusal, ite_refusal_eq_none_iff, Bool.and_eq_true, not_and,
    Bool.not_eq_true, Nat.not_le, hasUpgrade_eq_false_iff, Option.bind_eq_none_iff,
    bonusRefusal_eq_none_iff]

theorem AwakeningsKept.append_iff {options : List BonusId} :
    AwakeningsKept w options (us ++ [u]) ↔
      AwakeningsKept w options us ∧ awakeningRefusal w ⟨a, us⟩ options u = none := by
  rw [awakeningRefusal_eq_none_iff]
  constructor
  · intro h
    have hlength := h.length
    rw [List.length_append, List.length_singleton] at hlength
    obtain ⟨hsix, hfirstSix⟩ := countP_append_le_one_iff.1 h.levelSix
    obtain ⟨hbonus, hfirstBonus⟩ := countP_append_le_one_iff.1 h.bonus
    obtain ⟨hcustom, hlast⟩ := List.forall_mem_append.1 h.awakenings
    obtain ⟨hsharp, hblade⟩ := List.forall_mem_append.1 h.sharpness
    obtain ⟨hoffered, hoffer⟩ := List.forall_mem_append.1 h.offered
    refine ⟨⟨hcustom, by omega, hsix, hsharp, hoffered, hbonus⟩, hlast u (by simp), by omega,
      hfirstSix, hblade u (by simp), ?_⟩
    intro b hb
    exact ⟨hoffer u (by simp) b hb, hfirstBonus (by simp [hb])⟩
  · rintro ⟨h, hcustom, hlength, hsix, hsharp, hbonus⟩
    constructor
    · exact List.forall_mem_append.2 ⟨h.awakenings, by simpa using hcustom⟩
    · rw [List.length_append, List.length_singleton]
      omega
    · exact countP_append_le_one_iff.2 ⟨h.levelSix, hsix⟩
    · exact List.forall_mem_append.2 ⟨h.sharpness, by simpa using hsharp⟩
    · refine List.forall_mem_append.2 ⟨h.offered, ?_⟩
      simpa using fun b hb => (hbonus b hb).1
    · refine countP_append_le_one_iff.2 ⟨h.bonus, ?_⟩
      intro hsome
      obtain ⟨b, hb⟩ := Option.isSome_iff_exists.1 hsome
      exact (hbonus b hb).2

/-- The rules hold with one upgrade more if they hold without it and nothing speaks against it. -/
theorem SchemeKept.append_iff :
    SchemeKept w (us ++ [u]) ↔ SchemeKept w us ∧ schemeRefusal w ⟨a, us⟩ u = none := by
  unfold SchemeKept schemeRefusal
  cases hscheme : w.upgrades with
  | none => simp
  | custom =>
      simp only [customRefusal_eq_none_iff, List.forall_mem_append, List.length_append,
        List.length_singleton, List.forall_mem_singleton]
      constructor
      · rintro ⟨⟨hcustom, hu⟩, hlength⟩
        exact ⟨⟨hcustom, by omega⟩, hu, by omega⟩
      · rintro ⟨⟨hcustom, -⟩, hu, hlength⟩
        exact ⟨⟨hcustom, hu⟩, hlength⟩
  | awakening options => exact AwakeningsKept.append_iff

theorem addUpgrade_eq_ok_iff :
    addUpgrade w ⟨a, us⟩ u = .ok t ↔ schemeRefusal w ⟨a, us⟩ u = none ∧
      (u.isSlot = true → us.countP Upgrade.isSlot = 0) ∧ ⟨a, us ++ [u]⟩ = t := by
  unfold addUpgrade
  cases schemeRefusal w ⟨a, us⟩ u with
  | some refusal => simp
  | none =>
      simp only [SuccessfulRun.ite_error_eq_ok_iff, Bool.and_eq_true, not_and, Bool.not_eq_true,
        hasUpgrade_eq_false_iff, Except.ok.injEq, true_and]

theorem schemeKept_nil : SchemeKept w [] := by
  unfold SchemeKept
  split
  next => rfl
  next => simp
  next => constructor <;> simp

/-- Upgrades are accepted one after the other exactly if together they keep the rules. -/
theorem foldlM_addUpgrade_eq_ok_iff :
    us.foldlM (fun t u => t.addUpgrade w u) (⟨a, []⟩ : Setup) = .ok t ↔
      (SchemeKept w us ∧ us.countP Upgrade.isSlot ≤ 1) ∧ ⟨a, us⟩ = t := by
  -- on the last upgrade, since each one is judged by those before it
  induction us using List.reverseRecOn generalizing t with
  | nil =>
      simp only [List.foldlM_nil, pure, Except.pure, Except.ok.injEq, schemeKept_nil,
        List.countP_nil, Nat.zero_le, true_and]
  | append_singleton us u ih =>
      rw [List.foldlM_append, SuccessfulRun.bind_eq_ok_iff, SchemeKept.append_iff (a := a),
        countP_append_le_one_iff]
      constructor
      · rintro ⟨s, hbefore, hlast⟩
        obtain ⟨⟨hscheme, hslot⟩, rfl⟩ := ih.1 hbefore
        rw [List.foldlM_cons, SuccessfulRun.bind_eq_ok_iff] at hlast
        obtain ⟨s, hadded, hdone⟩ := hlast
        obtain ⟨hrefusal, hfirst, rfl⟩ := addUpgrade_eq_ok_iff.1 hadded
        exact ⟨⟨⟨hscheme, hrefusal⟩, hslot, hfirst⟩, Except.ok.inj hdone⟩
      · rintro ⟨⟨⟨hscheme, hrefusal⟩, hslot, hfirst⟩, rfl⟩
        refine ⟨⟨a, us⟩, ih.2 ⟨⟨hscheme, hslot⟩, rfl⟩, ?_⟩
        have hadded := addUpgrade_eq_ok_iff.2 ⟨hrefusal, hfirst, rfl⟩
        exact SuccessfulRun.bind_eq_ok_iff.2 ⟨_, hadded, rfl⟩

theorem foldlM_setAugment_eq_ok (h : AugmentsKept w a) :
    Augment.all.foldlM (fun t augment => t.setAugment augment (a.count augment))
      (⟨{ level := a.level }, []⟩ : Setup) = .ok ⟨a, []⟩ := by
  have hpaid : a.attack + a.affinity + a.healthRegen + a.slot ≤ a.level := h.paid
  have hattack : setAugment ⟨{ level := a.level }, []⟩ .attack a.attack =
      .ok ⟨{ level := a.level, attack := a.attack }, []⟩ := by
    refine setAugment_eq_ok_iff.2 ⟨by simp [Augment.single], ?_, rfl⟩
    simp [Augments.spent, Augments.withCount]
    omega
  have haffinity : setAugment ⟨{ level := a.level, attack := a.attack }, []⟩ .affinity a.affinity =
      .ok ⟨{ level := a.level, attack := a.attack, affinity := a.affinity }, []⟩ := by
    refine setAugment_eq_ok_iff.2 ⟨by simp [Augment.single], ?_, rfl⟩
    simp [Augments.spent, Augments.withCount]
    omega
  have hregen : setAugment ⟨{ level := a.level, attack := a.attack, affinity := a.affinity }, []⟩
      .healthRegen a.healthRegen = .ok ⟨{ a with slot := 0 }, []⟩ := by
    refine setAugment_eq_ok_iff.2 ⟨fun _ => h.healthRegen, ?_, rfl⟩
    simp [Augments.spent, Augments.withCount]
    omega
  have hslot : setAugment ⟨{ a with slot := 0 }, []⟩ .slot a.slot = .ok ⟨a, []⟩ :=
    setAugment_eq_ok_iff.2 ⟨fun _ => h.slot, hpaid, rfl⟩
  refine SuccessfulRun.bind_eq_ok_iff.2 ⟨_, hattack, ?_⟩
  refine SuccessfulRun.bind_eq_ok_iff.2 ⟨_, haffinity, ?_⟩
  refine SuccessfulRun.bind_eq_ok_iff.2 ⟨_, hregen, ?_⟩
  exact SuccessfulRun.bind_eq_ok_iff.2 ⟨_, hslot, rfl⟩

theorem Kept.replay_eq_ok (h : Kept w s) : s.replay w = .ok s := by
  have hleveled : fresh.setLevel w s.augments.level = .ok ⟨{ level := s.augments.level }, []⟩ :=
    setLevel_eq_ok_iff.2 ⟨h.augments.offered, h.augments.level, Nat.zero_le _, rfl⟩
  refine SuccessfulRun.bind_eq_ok_iff.2 ⟨_, hleveled, ?_⟩
  refine SuccessfulRun.bind_eq_ok_iff.2 ⟨_, foldlM_setAugment_eq_ok h.augments, ?_⟩
  exact foldlM_addUpgrade_eq_ok_iff.2 ⟨⟨h.scheme, h.slot⟩, rfl⟩

end Choosing

section Full

variable {w : Weapon} {options : List BonusId} {a : Augments} {us : List Upgrade}

theorem augmentsKept_of_mem_full (h : a ∈ fullAugments w) : AugmentsKept w a := by
  unfold fullAugments at h
  split at h
  next hscheme =>
    rw [List.mem_singleton.1 h]
    constructor <;> simp [Augments.spent]
  next hscheme =>
    obtain ⟨regen, hregen, h⟩ := List.mem_flatMap.1 h
    obtain ⟨slot, hslot, h⟩ := List.mem_flatMap.1 h
    obtain ⟨attack, hattack, rfl⟩ := List.mem_map.1 h
    rw [List.mem_range] at hregen hslot hattack
    constructor
    · rw [hscheme]
      intro hnone
      cases hnone
    · exact Nat.le_refl _
    · simp only [Augments.spent]
      omega
    · simp only
      omega
    · simp only
      omega

theorem mem_of_mem_selections {items l : List Upgrade} {n : Nat} (h : l ∈ selections items n) :
    l.length = n ∧ ∀ u ∈ l, u ∈ items := by
  induction items, n using selections.induct generalizing l with
  | case1 items =>
      rw [selections, List.mem_singleton] at h
      rw [h]
      simp
  | case2 n =>
      rw [selections] at h
      cases h
  | case3 u rest n ihRest ihSame =>
      rw [selections, List.mem_append, List.mem_map] at h
      rcases h with h | ⟨others, hothers, rfl⟩
      · obtain ⟨hlength, hitems⟩ := ihRest h
        exact ⟨hlength, fun v hv => List.mem_cons_of_mem u (hitems v hv)⟩
      · obtain ⟨hlength, hitems⟩ := ihSame hothers
        refine ⟨congrArg Nat.succ hlength, ?_⟩
        intro v hv
        rcases List.mem_cons.1 hv with rfl | hv
        · exact List.mem_cons_self
        · exact hitems v hv

/-- What the awakenings of the fifth and sixth level have in common. -/
structure LevelAwakening (w : Weapon) (u : Upgrade) : Prop where
  awakening : u.isCustom = false
  bonus : u.bonus? = none
  slot : u.isSlot = false
  sharpness : u.isSharpness = true → w.gauge.isNone = false

theorem holds_of_mem_level {holds : Upgrade → Prop} {attack affinity sharpness : Upgrade}
    (hattack : holds attack) (haffinity : holds affinity)
    (hsharpness : w.gauge.isNone = false → holds sharpness) {u : Upgrade}
    (h : u ∈ [attack, affinity] ++ if w.gauge.isSome then [sharpness] else []) : holds u := by
  rcases List.mem_append.1 h with h | h
  · simp only [List.mem_cons, List.not_mem_nil, or_false] at h
    rcases h with rfl | rfl
    · exact hattack
    · exact haffinity
  · split at h
    next hgauge =>
      rw [List.mem_singleton.1 h]
      exact hsharpness (by simpa using hgauge)
    next => cases h

/-- The rules for the awakenings that are taken at most once. -/
structure SinglesKept (options : List BonusId) (us : List Upgrade) : Prop where
  awakenings : ∀ u ∈ us, u.isCustom = false
  length : us.length ≤ 2
  levelFive : us.countP Upgrade.isLevelSix = 0
  blunt : ∀ u ∈ us, u.isSharpness = false
  offered : ∀ u ∈ us, ∀ b, u.bonus? = some b → b ∈ options
  bonus : us.countP (·.bonus?.isSome) ≤ 1
  slot : us.countP Upgrade.isSlot ≤ 1

theorem singlesKept_of_mem (h : us ∈ singles options) : SinglesKept options us := by
  simp only [singles, List.mem_cons, List.mem_flatMap, List.not_mem_nil, or_false] at h
  rcases h with rfl | rfl | ⟨b, hb, rfl | rfl⟩
  · constructor <;> simp
  · constructor <;> simp [Upgrade.isCustom, Upgrade.isLevelSix, Upgrade.isSharpness, Upgrade.bonus?,
      Upgrade.isSlot]
  · constructor <;> simp [Upgrade.isCustom, Upgrade.isLevelSix, Upgrade.isSharpness, Upgrade.bonus?,
      Upgrade.isSlot, hb]
  · constructor <;> simp [Upgrade.isCustom, Upgrade.isLevelSix, Upgrade.isSharpness, Upgrade.bonus?,
      Upgrade.isSlot, List.countP_cons, hb]

theorem levelAwakening_six {u : Upgrade}
    (h : u ∈ [.attack6, .affinity6] ++ if w.gauge.isSome then [Upgrade.sharpness6] else []) :
    LevelAwakening w u := by
  apply holds_of_mem_level _ _ _ h
  · constructor <;> simp [Upgrade.isCustom, Upgrade.bonus?, Upgrade.isSlot, Upgrade.isSharpness]
  · constructor <;> simp [Upgrade.isCustom, Upgrade.bonus?, Upgrade.isSlot, Upgrade.isSharpness]
  · intro hgauge
    constructor <;> simp [Upgrade.isCustom, Upgrade.bonus?, Upgrade.isSlot, hgauge]

theorem levelAwakening_five {u : Upgrade}
    (h : u ∈ [.attack5, .affinity5] ++ if w.gauge.isSome then [Upgrade.sharpness5] else []) :
    LevelAwakening w u := by
  apply holds_of_mem_level _ _ _ h
  · constructor <;> simp [Upgrade.isCustom, Upgrade.bonus?, Upgrade.isSlot, Upgrade.isSharpness]
  · constructor <;> simp [Upgrade.isCustom, Upgrade.bonus?, Upgrade.isSlot, Upgrade.isSharpness]
  · intro hgauge
    constructor <;> simp [Upgrade.isCustom, Upgrade.bonus?, Upgrade.isSlot, hgauge]

/-- One awakening of the sixth level, others of the fifth and single ones keep the rules. -/
theorem awakeningsKept_of_parts {six : Upgrade} {others single : List Upgrade}
    (hsix : LevelAwakening w six) (hothers : ∀ u ∈ others, LevelAwakening w u)
    (hfive : others.countP Upgrade.isLevelSix = 0) (hsingle : SinglesKept options single)
    (hlength : others.length + single.length < maxAwakenings) :
    AwakeningsKept w options (six :: others ++ single) := by
  have hbonus : others.countP (·.bonus?.isSome) = 0 := by
    rw [List.countP_eq_zero]
    intro u hu
    simp [(hothers u hu).bonus]
  constructor
  · simp only [List.cons_append, List.forall_mem_cons, List.forall_mem_append]
    exact ⟨hsix.awakening, fun u hu => (hothers u hu).awakening, hsingle.awakenings⟩
  · simp only [List.cons_append, List.length_cons, List.length_append]
    exact hlength
  · rw [List.cons_append, List.countP_cons, List.countP_append, hfive, hsingle.levelFive]
    split <;> omega
  · simp only [List.cons_append, List.forall_mem_cons, List.forall_mem_append]
    refine ⟨hsix.sharpness, fun u hu => (hothers u hu).sharpness, ?_⟩
    intro u hu hsharp
    rw [hsingle.blunt u hu] at hsharp
    cases hsharp
  · simp only [List.cons_append, List.forall_mem_cons, List.forall_mem_append]
    refine ⟨?_, ?_, hsingle.offered⟩
    · simp [hsix.bonus]
    · intro u hu
      simp [(hothers u hu).bonus]
  · rw [List.cons_append, List.countP_cons, List.countP_append, hbonus, hsix.bonus]
    simpa using hsingle.bonus

theorem kept_of_mem_fullAwakenings (h : us ∈ fullAwakenings w options) :
    AwakeningsKept w options us ∧ us.countP Upgrade.isSlot ≤ 1 := by
  obtain ⟨six, hsix, h⟩ := List.mem_flatMap.1 h
  obtain ⟨single, hsingle, h⟩ := List.mem_flatMap.1 h
  obtain ⟨others, hothers, rfl⟩ := List.mem_map.1 h
  obtain ⟨hlength, hfives⟩ := mem_of_mem_selections hothers
  have hsingle := singlesKept_of_mem hsingle
  have hothers : ∀ u ∈ others, LevelAwakening w u := fun u hu => levelAwakening_five (hfives u hu)
  have hfive : others.countP Upgrade.isLevelSix = 0 := by
    rw [List.countP_eq_zero]
    intro u hu
    apply holds_of_mem_level _ _ _ (hfives u hu) <;> simp [Upgrade.isLevelSix]
  have hslot : others.countP Upgrade.isSlot = 0 := by
    rw [List.countP_eq_zero]
    intro u hu
    simp [(hothers u hu).slot]
  have hsum : others.length + single.length < maxAwakenings := by
    have hmax : maxAwakenings = 5 := rfl
    have hshort := hsingle.length
    omega
  have hsix := levelAwakening_six hsix
  constructor
  · exact awakeningsKept_of_parts hsix hothers hfive hsingle hsum
  · rw [List.cons_append, List.countP_cons, List.countP_append, hslot, hsix.slot]
    simpa using hsingle.slot

theorem kept_of_mem_full {s : Setup} (h : s ∈ full w) : Kept w s := by
  obtain ⟨augments, haugments, h⟩ := List.mem_flatMap.1 h
  obtain ⟨upgrades, hupgrades, rfl⟩ := List.mem_map.1 h
  have hrules : SchemeKept w upgrades ∧ upgrades.countP Upgrade.isSlot ≤ 1 := by
    unfold fullUpgrades at hupgrades
    unfold SchemeKept
    cases hscheme : w.upgrades with
    | none =>
        rw [hscheme] at hupgrades
        rw [List.mem_singleton.1 hupgrades]
        simp
    | custom =>
        rw [hscheme] at hupgrades
        have hall : ∀ us ∈ fullCustom, ((∀ u ∈ us, u.isCustom = true) ∧ us.length ≤ maxCustom) ∧
            us.countP Upgrade.isSlot ≤ 1 := by decide
        exact hall upgrades hupgrades
    | awakening options =>
        rw [hscheme] at hupgrades
        exact kept_of_mem_fullAwakenings hupgrades
  exact ⟨augmentsKept_of_mem_full haugments, hrules.1, hrules.2⟩

end Full

end Setup

end Loadout
