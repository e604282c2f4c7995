import Loadout.Proofs.DominatedWeapons
import Loadout.Proofs.ReorderedBuilds
import Loadout.Proofs.SpentSetups

/-!
# Padded setups

Spending more is never worse.  What is left of the augment level goes into attack, and what is left
of the upgrades too; awakenings without one of the sixth level get it as one more awakening or, if
all are taken, in place of the same one of the fifth level.  Slots and set bonus stay as they are,
everything else can only grow, so every setup that can be reached is dominated by a spent one.
-/

namespace Loadout

namespace Gauge

theorem sumOf_drop_addAt_mono {extra extra' : Nat} (h : extra ≤ extra') (hits : List Nat)
    (n tier : Nat) :
    sumOf ((addAt extra n hits).drop tier) ≤ sumOf ((addAt extra' n hits).drop tier) := by
  induction hits generalizing n tier with
  | nil => simp [addAt]
  | cons first rest ih =>
      cases n with
      | zero =>
          cases tier with
          | zero =>
              simp only [addAt, List.drop_zero, sumOf_cons]
              omega
          | succ tier => simp only [addAt, List.drop_succ_cons, le_refl]
      | succ n =>
          cases tier with
          | zero =>
              have hrest := ih n 0
              simp only [List.drop_zero] at hrest
              simp only [addAt, List.drop_zero, sumOf_cons]
              omega
          | succ tier => simpa only [addAt, List.drop_succ_cons] using ih n tier

/-- More hits added to the top tier are at least as good. -/
theorem covers_addTop (g : Gauge) {extra extra' : Nat} (h : extra ≤ extra') :
    (g.addTop extra').covers (g.addTop extra) = true :=
  covers_iff.2 fun tier => sumOf_drop_addAt_mono h g.hits g.top tier

end Gauge

/-- An awakening at the sixth level where it has one. -/
def Upgrade.raised : Upgrade → Upgrade
  | .attack5 => .attack6
  | .affinity5 => .affinity6
  | .sharpness5 => .sharpness6
  | u => u

namespace Setup

/-- A setup that successful calls lead to. -/
def Reached (w : Weapon) (s : Setup) : Prop :=
  ∃ calls : List Call, calls.foldlM (fun t call => call.apply w t) fresh = .ok s

theorem reached_iff_kept {w : Weapon} {s : Setup} : Reached w s ↔ Kept w s := by
  constructor
  · rintro ⟨calls, hcalls⟩
    rw [← foldl_after_of_foldlM hcalls]
    exact (kept_fresh w).foldl_after calls
  · exact fun h => ⟨s.calls, h.foldlM_calls.trans h.replay_eq_ok⟩

/-- Upgrades that bring no less than others, with the same slots and the same set bonus. -/
structure NoWorse (us us' : List Upgrade) : Prop where
  raw : addedBy us Upgrade.raw ≤ addedBy us' Upgrade.raw
  affinity : addedBy us Upgrade.affinity ≤ addedBy us' Upgrade.affinity
  customAffinity : us.count .customAffinity ≤ us'.count .customAffinity
  hits : addedBy us Upgrade.hits ≤ addedBy us' Upgrade.hits
  slots : us'.filter Upgrade.isSlot = us.filter Upgrade.isSlot
  bonuses : us'.filterMap Upgrade.bonus? = us.filterMap Upgrade.bonus?

section Improving

variable {us us' us'' before rest extra : List Upgrade} {u : Upgrade}

theorem addedBy_append (us us' : List Upgrade) (quantity : Upgrade → Nat) :
    addedBy (us ++ us') quantity = addedBy us quantity + addedBy us' quantity := by
  unfold addedBy
  rw [List.map_append]
  exact List.sum_append

theorem addedBy_cons (u : Upgrade) (us : List Upgrade) (quantity : Upgrade → Nat) :
    addedBy (u :: us) quantity = quantity u + addedBy us quantity := rfl

theorem NoWorse.refl (us : List Upgrade) : NoWorse us us :=
  ⟨le_rfl, le_rfl, le_rfl, le_rfl, rfl, rfl⟩

theorem NoWorse.trans (h : NoWorse us us') (h' : NoWorse us' us'') : NoWorse us us'' where
  raw := h.raw.trans h'.raw
  affinity := h.affinity.trans h'.affinity
  customAffinity := h.customAffinity.trans h'.customAffinity
  hits := h.hits.trans h'.hits
  slots := h'.slots.trans h.slots
  bonuses := h'.bonuses.trans h.bonuses

theorem NoWorse.countP_isSlot (h : NoWorse us us') :
    us'.countP Upgrade.isSlot = us.countP Upgrade.isSlot := by
  rw [List.countP_eq_length_filter, List.countP_eq_length_filter, h.slots]

theorem NoWorse.append (us : List Upgrade) (hslot : ∀ u ∈ extra, u.isSlot = false)
    (hbonus : ∀ u ∈ extra, u.bonus? = none) : NoWorse us (us ++ extra) := by
  constructor
  · simp only [addedBy_append, Nat.le_add_right]
  · simp only [addedBy_append, Nat.le_add_right]
  · simp only [List.count_append, Nat.le_add_right]
  · simp only [addedBy_append, Nat.le_add_right]
  · have hnone : extra.filter Upgrade.isSlot = [] := by simpa [List.filter_eq_nil_iff] using hslot
    rw [List.filter_append, hnone, List.append_nil]
  · have hnone : extra.filterMap Upgrade.bonus? = [] := List.filterMap_eq_nil_iff.2 hbonus
    rw [List.filterMap_append, hnone, List.append_nil]

theorem NoWorse.raise (before rest : List Upgrade) (u : Upgrade) :
    NoWorse (before ++ u :: rest) (before ++ u.raised :: rest) := by
  have hraw : u.raw ≤ u.raised.raw := by
    cases u <;> simp [Upgrade.raised, Upgrade.raw]
  have haffinity : u.affinity ≤ u.raised.affinity := by
    cases u <;> simp [Upgrade.raised, Upgrade.affinity]
  have hhits : u.hits ≤ u.raised.hits := by
    cases u <;> simp [Upgrade.raised, Upgrade.hits]
  have hcustom : (u.raised == .customAffinity) = (u == .customAffinity) := by cases u <;> rfl
  have hslot : u.raised.isSlot = u.isSlot := by cases u <;> rfl
  have hbonus : u.raised.bonus? = u.bonus? := by cases u <;> rfl
  constructor
  · simp only [addedBy_append, addedBy_cons]
    omega
  · simp only [addedBy_append, addedBy_cons]
    omega
  · simp only [List.count_append, List.count_cons, hcustom, le_refl]
  · simp only [addedBy_append, addedBy_cons]
    omega
  · have hsame : u.isSlot = true → u.raised = u := by
      cases u <;> simp [Upgrade.isSlot, Upgrade.raised]
    simp only [List.filter_append, List.filter_cons, hslot]
    split
    next his => rw [hsame his]
    next => rfl
  · simp only [List.filterMap_append, List.filterMap_cons, hbonus]

end Improving

section Padding

variable {w : Weapon} {s : Setup} {a : Augments} {options : List BonusId}
  {us extra before rest : List Upgrade} {u : Upgrade}

/-- The augments with what is left of the highest level put into attack. -/
def padded (w : Weapon) (a : Augments) : Augments :=
  match w.augments with
  | .none => a
  | .iceborne =>
      { a with level := maxAugmentLevel, attack := a.attack + (maxAugmentLevel - a.spent) }

theorem attack_le_padded (w : Weapon) (a : Augments) : a.attack ≤ (padded w a).attack := by
  unfold padded
  cases w.augments with
  | none => exact le_rfl
  | iceborne => exact Nat.le_add_right _ _

theorem padded_eq (w : Weapon) (a : Augments) :
    padded w a = { a with level := (padded w a).level, attack := (padded w a).attack } := by
  unfold padded
  cases w.augments <;> rfl

theorem AugmentsKept.padded (h : AugmentsKept w a) :
    AugmentsKept w (padded w a) ∧ AugmentsSpent w (padded w a) := by
  unfold Setup.padded AugmentsSpent
  cases hscheme : w.augments with
  | none => exact ⟨h, .inl rfl⟩
  | iceborne =>
      have hspent : a.spent ≤ maxAugmentLevel := h.paid.trans h.level
      have hfilled : Augments.spent { a with
          level := maxAugmentLevel, attack := a.attack + (maxAugmentLevel - a.spent) } =
          maxAugmentLevel := by
        unfold Augments.spent at hspent ⊢
        dsimp only
        omega
      refine ⟨⟨?_, le_rfl, hfilled.le, h.healthRegen, h.slot⟩, .inr hfilled⟩
      intro hnone
      rw [hscheme] at hnone
      cases hnone

theorem AwakeningsKept.append (h : AwakeningsKept w options us)
    (hlevel : ∀ u ∈ extra, LevelAwakening w u)
    (hlength : us.length + extra.length ≤ maxAwakenings)
    (hsix : us.countP Upgrade.isLevelSix + extra.countP Upgrade.isLevelSix ≤ 1) :
    AwakeningsKept w options (us ++ extra) := by
  have hnoBonus : extra.countP (·.bonus?.isSome) = 0 := by
    rw [List.countP_eq_zero]
    intro u hu
    simp [(hlevel u hu).bonus]
  constructor
  · exact List.forall_mem_append.2 ⟨h.awakenings, fun u hu => (hlevel u hu).awakening⟩
  · rwa [List.length_append]
  · rwa [List.countP_append]
  · exact List.forall_mem_append.2 ⟨h.sharpness, fun u hu => (hlevel u hu).sharpness⟩
  · refine List.forall_mem_append.2 ⟨h.offered, fun u hu b hb => ?_⟩
    rw [(hlevel u hu).bonus] at hb
    cases hb
  · rw [List.countP_append, hnoBonus]
    exact h.bonus

theorem AwakeningsKept.raise (h : AwakeningsKept w options (before ++ u :: rest))
    (hnone : (before ++ u :: rest).countP Upgrade.isLevelSix = 0) :
    AwakeningsKept w options (before ++ u.raised :: rest) := by
  have hcustom : u.raised.isCustom = u.isCustom := by cases u <;> rfl
  have hsharp : u.raised.isSharpness = u.isSharpness := by cases u <;> rfl
  have hbonus : u.raised.bonus? = u.bonus? := by cases u <;> rfl
  obtain ⟨hawakenings, hlength, -, hsharpness, hoffered, hone⟩ := h
  simp only [List.forall_mem_append, List.forall_mem_cons] at hawakenings hsharpness hoffered
  constructor
  · simpa only [List.forall_mem_append, List.forall_mem_cons, hcustom] using hawakenings
  · simpa only [List.length_append, List.length_cons] using hlength
  · simp only [List.countP_append, List.countP_cons] at hnone ⊢
    split <;> omega
  · simpa only [List.forall_mem_append, List.forall_mem_cons, hsharp] using hsharpness
  · simpa only [List.forall_mem_append, List.forall_mem_cons, hbonus] using hoffered
  · simpa only [List.countP_append, List.countP_cons, hbonus] using hone

/-- At most two of five awakenings are single ones, the others have a level. -/
theorem AwakeningsKept.exists_levelFive (h : AwakeningsKept w options us)
    (hslot : us.countP Upgrade.isSlot ≤ 1) (hlength : us.length = maxAwakenings)
    (hnone : us.countP Upgrade.isLevelSix = 0) : ∃ u ∈ us, u.raised.isLevelSix = true := by
  obtain ⟨single, hsingle, hperm⟩ := exists_perm_singles h hslot
  have hshort : (us.filter isSingle).length < us.length := by
    have hmax : maxAwakenings = 5 := rfl
    have htwo := (singlesKept_of_mem hsingle).length
    rw [hperm.length_eq]
    omega
  obtain ⟨u, hu, hplain⟩ : ∃ u ∈ us, isSingle u = false := by
    simpa using mt List.length_filter_eq_length_iff.2 hshort.ne
  have hcustom := h.awakenings u hu
  have hlow := List.countP_eq_zero.1 hnone u hu
  refine ⟨u, hu, ?_⟩
  cases u <;> simp_all [Upgrade.raised, Upgrade.isCustom, Upgrade.isLevelSix, isSingle,
    Upgrade.isSlot, Upgrade.bonus?]

theorem AwakeningsKept.exists_levelSix (h : AwakeningsKept w options us)
    (hslot : us.countP Upgrade.isSlot ≤ 1) :
    ∃ us', AwakeningsKept w options us' ∧ us'.countP Upgrade.isLevelSix = 1 ∧ NoWorse us us' := by
  rcases h.levelSix.eq_or_lt with hone | hnone
  · exact ⟨us, h, hone, .refl us⟩
  have hnone : us.countP Upgrade.isLevelSix = 0 := by omega
  rcases h.length.eq_or_lt with hfull | hroom
  · -- no awakening is left to take: one is raised
    obtain ⟨u, hu, hraised⟩ := h.exists_levelFive hslot hfull hnone
    obtain ⟨before, rest, rfl⟩ := List.append_of_mem hu
    refine ⟨_, h.raise hnone, ?_, .raise before rest u⟩
    simp only [List.countP_append, List.countP_cons] at hnone ⊢
    rw [if_pos hraised]
    omega
  · have hattack : ∀ u ∈ [Upgrade.attack6], LevelAwakening w u :=
      List.forall_mem_singleton.2 (levelAwakening_six (by simp))
    refine ⟨us ++ [.attack6], h.append hattack hroom ?_, ?_, .append us ?_ ?_⟩
    · rw [hnone]
      decide
    · rw [List.countP_append, hnone]
      rfl
    · exact fun u hu => (hattack u hu).slot
    · exact fun u hu => (hattack u hu).bonus

theorem AwakeningsKept.exists_spent (h : AwakeningsKept w options us)
    (hslot : us.countP Upgrade.isSlot ≤ 1) :
    ∃ us', AwakeningsKept w options us' ∧
      (us'.length = maxAwakenings ∧ us'.countP Upgrade.isLevelSix = 1) ∧ NoWorse us us' := by
  obtain ⟨us', hkept, hsix, hnoWorse⟩ := h.exists_levelSix hslot
  have hroom := hkept.length
  generalize hextra : List.replicate (maxAwakenings - us'.length) Upgrade.attack5 = extra
  have hattack : ∀ u ∈ extra, LevelAwakening w u := by
    intro u hu
    rw [← hextra] at hu
    rw [List.eq_of_mem_replicate hu]
    exact levelAwakening_five (by simp)
  have hlength : us'.length + extra.length = maxAwakenings := by
    rw [← hextra, List.length_replicate]
    omega
  have hnoSix : extra.countP Upgrade.isLevelSix = 0 := by
    simp [← hextra, List.countP_replicate, Upgrade.isLevelSix]
  have hone : us'.countP Upgrade.isLevelSix + extra.countP Upgrade.isLevelSix = 1 := by
    rw [hsix, hnoSix]
  refine ⟨us' ++ extra, hkept.append hattack hlength.le hone.le, ⟨?_, ?_⟩, hnoWorse.trans ?_⟩
  · rw [List.length_append, hlength]
  · rw [List.countP_append, hone]
  · exact .append us' (fun u hu => (hattack u hu).slot) fun u hu => (hattack u hu).bonus

theorem SchemeKept.exists_spent (h : SchemeKept w us) (hslot : us.countP Upgrade.isSlot ≤ 1) :
    ∃ us', SchemeKept w us' ∧ UpgradesSpent w us' ∧ NoWorse us us' := by
  unfold SchemeKept at h ⊢
  unfold UpgradesSpent
  cases hscheme : w.upgrades with
  | none =>
      rw [hscheme] at h
      exact ⟨us, h, h, .refl us⟩
  | custom =>
      rw [hscheme] at h
      obtain ⟨hcustom, hlength⟩ := h
      have hfilled : (us ++ List.replicate (maxCustom - us.length) Upgrade.customAttack).length =
          maxCustom := by
        rw [List.length_append, List.length_replicate]
        omega
      refine ⟨us ++ List.replicate (maxCustom - us.length) .customAttack,
        ⟨List.forall_mem_append.2 ⟨hcustom, ?_⟩, hfilled.le⟩, hfilled, .append us ?_ ?_⟩
      all_goals
        intro u hu
        rw [List.eq_of_mem_replicate hu]
        rfl
  | awakening options =>
      rw [hscheme] at h
      exact AwakeningsKept.exists_spent h hslot

end Padding

section Comparing

variable {w : Weapon} {s s' : Setup} {stats stats' : WeaponStats}

theorem steppedAffinity_mono {n m : Nat} (h : n ≤ m) : steppedAffinity n ≤ steppedAffinity m := by
  cases n with
  | zero => exact Nat.zero_le _
  | succ n =>
      cases m with
      | zero => cases h
      | succ m =>
          simp only [steppedAffinity]
          omega

theorem stats_eq_ok_iff : s.stats w = .ok stats ↔
    (w.trueRaw + augmentRaw * s.augments.attack + addedBy s.upgrades Upgrade.raw ≤ Fault.wordMax ∧
      Fault.signedMin ≤ w.affinity + s.addedAffinity ∧
        w.affinity + s.addedAffinity ≤ Fault.signedMax) ∧
      stats = {
        raw := w.trueRaw + augmentRaw * s.augments.attack + addedBy s.upgrades Upgrade.raw
        affinity := w.affinity + s.addedAffinity
        skill := w.skill
        bonus := s.addedBonus
        slots := descending (w.decoSlots ++ s.addedSlots)
        gauge := w.gauge.map fun g => g.addTop (addedBy s.upgrades Upgrade.hits)
        constantSharpness := w.constantSharpness
        healthRegen := 0 < s.augments.healthRegen
        element := w.element } := by
  simp only [Setup.stats, SuccessfulRun.bind_eq_ok_iff, Fault.word_eq_ok_iff,
    Fault.signed_eq_ok_iff]
  constructor
  · rintro ⟨raw, ⟨rfl, hraw⟩, affinity, ⟨rfl, haffinity⟩, hstats⟩
    exact ⟨⟨hraw, haffinity⟩, (Except.ok.inj hstats).symm⟩
  · rintro ⟨⟨hraw, haffinity⟩, rfl⟩
    exact ⟨_, ⟨rfl, hraw⟩, _, ⟨rfl, haffinity⟩, rfl⟩

theorem dominates_of_noWorse (hattack : s.augments.attack ≤ s'.augments.attack)
    (haugments : s'.augments = { s.augments with
      level := s'.augments.level, attack := s'.augments.attack })
    (h : NoWorse s.upgrades s'.upgrades) (hs : s.stats w = .ok stats)
    (hs' : s'.stats w = .ok stats') : stats'.dominates stats = true := by
  obtain ⟨-, rfl⟩ := stats_eq_ok_iff.1 hs
  obtain ⟨-, rfl⟩ := stats_eq_ok_iff.1 hs'
  have hregen : s'.augments.healthRegen = s.augments.healthRegen := by rw [haugments]
  have hslot : s'.augments.slot = s.augments.slot := by rw [haugments]
  have haffinity : s'.augments.affinity = s.augments.affinity := by rw [haugments]
  have hadded : s.addedAffinity ≤ s'.addedAffinity := by
    have hcustom := steppedAffinity_mono h.customAffinity
    have hawakened := h.affinity
    simp only [addedAffinity, haffinity]
    omega
  refine WeaponStats.dominates_iff.2 {
    raw := ?_, affinity := ?_, slots := ?_, skill := .inr rfl, bonus := ?_, healthRegen := ?_,
    isRaw := id, constantSharpness := id, gauge := ?_ }
  · exact Nat.add_le_add (Nat.add_le_add_left (Nat.mul_le_mul_left _ hattack) _) h.raw
  · exact Int.add_le_add_left (Int.ofNat_le.2 hadded) _
  · simp only [addedSlots, hslot, h.slots]
    exact WeaponStats.slotsCover_refl _
  · simp only [addedBonus, h.bonuses, or_true]
  · simp only [hregen, imp_self]
  · cases w.gauge with
    | none => rfl
    | some g => exact g.covers_addTop h.hits

/-- For a weapon of which no setup overflows, every setup that successful calls lead to is dominated
by a fully spent one. -/
theorem exists_full_dominating (hfits : ∀ s, Reached w s → ∃ stats, s.stats w = .ok stats)
    (hs : Reached w s) :
    ∃ stats, s.stats w = .ok stats ∧
      ∃ s' ∈ full w, ∃ stats', s'.stats w = .ok stats' ∧ stats'.dominates stats = true := by
  obtain ⟨stats, hstats⟩ := hfits s hs
  have hkept := reached_iff_kept.1 hs
  obtain ⟨haugments, haugmentsSpent⟩ := hkept.augments.padded
  obtain ⟨us, hscheme, hspent, hnoWorse⟩ := hkept.scheme.exists_spent hkept.slot
  have hpadded : Kept w ⟨padded w s.augments, us⟩ :=
    ⟨haugments, hscheme, hnoWorse.countP_isSlot.trans_le hkept.slot⟩
  obtain ⟨us', -, hperm, hfull⟩ := Spent.exists_full ⟨haugmentsSpent, hspent⟩ hpadded
  obtain ⟨stats', hstats'⟩ := hfits _ (reached_iff_kept.2 hpadded)
  refine ⟨stats, hstats, _, hfull, stats', ?_, ?_⟩
  · rw [← stats_perm hperm hscheme]
    exact hstats'
  · exact dominates_of_noWorse (attack_le_padded w s.augments) (padded_eq w s.augments) hnoWorse
      hstats hstats'

end Comparing

section Fitting

variable {w : Weapon} {s : Setup} {us : List Upgrade}

theorem addedBy_le {quantity : Upgrade → Nat} {most : Nat} (h : ∀ u, quantity u ≤ most)
    (us : List Upgrade) : addedBy us quantity ≤ us.length * most := by
  induction us with
  | nil => exact Nat.zero_le _
  | cons u us ih =>
      have hu := h u
      rw [addedBy_cons, List.length_cons, Nat.succ_mul]
      omega

theorem SchemeKept.length_le (h : SchemeKept w us) : us.length ≤ maxCustom := by
  unfold SchemeKept at h
  cases hscheme : w.upgrades with
  | none =>
      rw [hscheme] at h
      exact h ▸ Nat.zero_le _
  | custom =>
      rw [hscheme] at h
      exact h.2
  | awakening options =>
      rw [hscheme] at h
      exact (AwakeningsKept.length h).trans (by decide)

/-- The raw attack that all augments and upgrades can add together. -/
def mostRaw : Nat := augmentRaw * maxAugmentLevel + maxCustom * 12

def mostAffinity : Nat :=
  steppedAffinity maxAugmentLevel + maxCustom * 10 + steppedAffinity maxCustom

/-- With some room above its own numbers no setup of a weapon overflows. -/
theorem exists_stats_of_room (hraw : w.trueRaw + mostRaw ≤ Fault.wordMax)
    (hlow : Fault.signedMin ≤ w.affinity) (hhigh : w.affinity + mostAffinity ≤ Fault.signedMax)
    (hs : Reached w s) : ∃ stats, s.stats w = .ok stats := by
  have hkept := reached_iff_kept.1 hs
  have hlength := hkept.scheme.length_le
  have hspent : s.augments.spent ≤ maxAugmentLevel := hkept.augments.paid.trans hkept.augments.level
  unfold Augments.spent at hspent
  have hupgradesRaw : addedBy s.upgrades Upgrade.raw ≤ maxCustom * 12 := by
    have hmost : ∀ u : Upgrade, u.raw ≤ 12 := by
      intro u
      cases u <;> simp [Upgrade.raw]
    exact (addedBy_le hmost s.upgrades).trans (Nat.mul_le_mul_right 12 hlength)
  have hupgradesAffinity : addedBy s.upgrades Upgrade.affinity ≤ maxCustom * 10 := by
    have hmost : ∀ u : Upgrade, u.affinity ≤ 10 := by
      intro u
      cases u <;> simp [Upgrade.affinity]
    exact (addedBy_le hmost s.upgrades).trans (Nat.mul_le_mul_right 10 hlength)
  have hattack : augmentRaw * s.augments.attack ≤ augmentRaw * maxAugmentLevel :=
    Nat.mul_le_mul_left _ (by omega)
  have haffinity : s.augments.affinity ≤ maxAugmentLevel := by omega
  have haugments := steppedAffinity_mono haffinity
  have hcustom := steppedAffinity_mono
    ((List.count_le_length (a := Upgrade.customAffinity)).trans hlength)
  have hadded : s.addedAffinity ≤ mostAffinity :=
    Nat.add_le_add (Nat.add_le_add haugments hupgradesAffinity) hcustom
  unfold mostRaw at hraw
  exact ⟨_, stats_eq_ok_iff.2 ⟨⟨by omega, by omega, by omega⟩, rfl⟩⟩

end Fitting

/-- Five awakenings without one of the sixth level, and a level that is not used up. -/
def unspentSword : Setup :=
  ⟨{ level := 2, healthRegen := 1 },
    [.slot, .sharpness5, .bonus (.ofIndex 0), .sharpness5, .affinity5]⟩

theorem exists_full_dominating_sword :
    (∀ s, Reached awakenedSword s → ∃ stats, s.stats awakenedSword = .ok stats) ∧
      Reached awakenedSword unspentSword ∧
      ∃ stats, unspentSword.stats awakenedSword = .ok stats ∧ ∃ s' ∈ full awakenedSword,
        ∃ stats', s'.stats awakenedSword = .ok stats' ∧ stats'.dominates stats = true := by
  have hfits : ∀ s, Reached awakenedSword s → ∃ stats, s.stats awakenedSword = .ok stats :=
    fun s => exists_stats_of_room (by decide) (by decide) (by decide)
  have hreached : Reached awakenedSword unspentSword := ⟨unspentSword.calls, rfl⟩
  exact ⟨hfits, hreached, exists_full_dominating hfits hreached⟩

end Setup

end Loadout
