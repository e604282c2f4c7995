import Loadout.Build
import Loadout.Proofs.AcceptedSetups
import Loadout.Proofs.AlikeRuns
import Loadout.Proofs.BuildAccounts
import Mathlib.Data.List.Sort

/-!
# Reordered builds

Upgrades are checked one by one as they are listed, decorations are added up one by one, yet their
order in a document makes no difference.  Whether upgrades keep the rules together does not depend
on their order, and neither does what they bring, since there is one set bonus at most.
-/

namespace Loadout

theorem Upgrade.bonus?_eq_none_of_isCustom {u : Upgrade} (h : u.isCustom = true) :
    u.bonus? = none := by
  cases u <;> first | rfl | cases h

namespace Setup

variable {w : Weapon} {s t : Setup} {a : Augments} {us us' : List Upgrade}

theorem AwakeningsKept.perm {options : List BonusId} (h : us.Perm us')
    (hkept : AwakeningsKept w options us) : AwakeningsKept w options us' := by
  constructor
  · exact fun u hu => hkept.awakenings u (h.mem_iff.2 hu)
  · exact h.length_eq ▸ hkept.length
  · exact h.countP_eq Upgrade.isLevelSix ▸ hkept.levelSix
  · exact fun u hu => hkept.sharpness u (h.mem_iff.2 hu)
  · exact fun u hu => hkept.offered u (h.mem_iff.2 hu)
  · exact h.countP_eq (·.bonus?.isSome) ▸ hkept.bonus

theorem SchemeKept.perm (h : us.Perm us') (hkept : SchemeKept w us) : SchemeKept w us' := by
  unfold SchemeKept at hkept ⊢
  cases hscheme : w.upgrades with
  | none =>
      rw [hscheme] at hkept
      cases hkept
      exact h.nil_eq.symm
  | custom =>
      rw [hscheme] at hkept
      exact ⟨fun u hu => hkept.1 u (h.mem_iff.2 hu), h.length_eq ▸ hkept.2⟩
  | awakening options =>
      rw [hscheme] at hkept
      exact AwakeningsKept.perm h hkept

theorem SchemeKept.countP_bonus_le (hkept : SchemeKept w us) :
    us.countP (·.bonus?.isSome) ≤ 1 := by
  unfold SchemeKept at hkept
  cases hscheme : w.upgrades with
  | none =>
      rw [hscheme] at hkept
      simp [hkept]
  | custom =>
      rw [hscheme] at hkept
      have hnone : us.countP (·.bonus?.isSome) = 0 := by
        rw [List.countP_eq_zero]
        intro u hu
        simp [Upgrade.bonus?_eq_none_of_isCustom (hkept.1 u hu)]
      omega
  | awakening options =>
      rw [hscheme] at hkept
      exact AwakeningsKept.bonus hkept

theorem addedBy_perm (h : us.Perm us') (quantity : Upgrade → Nat) :
    addedBy us quantity = addedBy us' quantity :=
  (h.map quantity).sum_eq

/-- With one set bonus at most there is none to be the last. -/
theorem addedBonus_perm (h : us.Perm us') (hbonus : us.countP (·.bonus?.isSome) ≤ 1) :
    addedBonus ⟨a, us⟩ = addedBonus ⟨a, us'⟩ := by
  have hperm := h.filterMap Upgrade.bonus?
  rw [addedBonus, addedBonus]
  rw [← List.length_filterMap_eq_countP] at hbonus
  cases hfirst : us.filterMap Upgrade.bonus? with
  | nil =>
      rw [hfirst] at hperm
      rw [← hperm.nil_eq]
  | cons b rest =>
      rw [hfirst] at hperm hbonus
      have hnone : rest = [] := List.eq_nil_of_length_eq_zero (by simpa using hbonus)
      subst hnone
      rw [← hperm.singleton_eq]

/-- Upgrades that keep the rules bring the same in any order. -/
theorem stats_perm (h : us.Perm us') (hkept : SchemeKept w us) :
    stats w ⟨a, us⟩ = stats w ⟨a, us'⟩ := by
  have haffinity : addedAffinity ⟨a, us⟩ = addedAffinity ⟨a, us'⟩ := by
    simp only [addedAffinity, addedBy_perm h, h.count_eq]
  have hslots : descending (w.decoSlots ++ addedSlots ⟨a, us⟩) =
      descending (w.decoSlots ++ addedSlots ⟨a, us'⟩) :=
    descending_congr (((h.filter Upgrade.isSlot).map _).append_left _ |>.append_left _)
  simp only [stats, addedBy_perm h, haffinity, hslots, addedBonus_perm h hkept.countP_bonus_le]

end Setup

section Reordering

variable {c : Catalogue}

theorem Catalogue.neverFaults_upgrade (c : Catalogue) (label : String) :
    InputError.NeverFaults (c.upgrade label) := by
  unfold Catalogue.upgrade
  split
  next => exact (InputError.neverFaults_find _ _ _).map _
  next => exact InputError.neverFaults_find _ _ _

/-- The same weapon with upgrades that keep its rules, in different orders. -/
structure ConfiguredWeapon.Reorders (v v' : ConfiguredWeapon) : Prop where
  weapon : v'.weapon = v.weapon
  augments : v'.setup.augments = v.setup.augments
  upgrades : v.setup.upgrades.Perm v'.setup.upgrades
  scheme : Setup.SchemeKept v.weapon v.setup.upgrades

theorem ConfiguredWeapon.Reorders.stats_eq {v v' : ConfiguredWeapon} (h : v.Reorders v') :
    v'.stats = v.stats := by
  obtain ⟨weapon, augments, upgrades⟩ := v
  obtain ⟨weapon', augments', upgrades'⟩ := v'
  obtain ⟨rfl, rfl, hperm, hscheme⟩ := h
  exact (Setup.stats_perm hperm hscheme).symm

namespace WeaponChoice

/-- Adds the upgrades with the given labels, in their order. -/
def addAll (c : Catalogue) (w : Weapon) (labels : List String) (s : Setup) :
    Except InputError Setup :=
  labels.foldlM (fun s label => do InputError.ofRefusal w.id (s.addUpgrade w (← c.upgrade label))) s

variable {w : Weapon} {s t : Setup} {labels labels' : List String}

theorem addAll_eq_ok_iff :
    addAll c w labels s = .ok t ↔
      ∃ us, List.Forall₂ (fun label u => c.upgrade label = .ok u) labels us ∧
        us.foldlM (fun s u => s.addUpgrade w u) s = .ok t := by
  induction labels generalizing s with
  | nil => simp [addAll, pure, Except.pure]
  | cons label rest ih =>
      rw [addAll, List.foldlM_cons, SuccessfulRun.bind_eq_ok_iff]
      constructor
      · rintro ⟨next, hnext, hrest⟩
        obtain ⟨u, hu, hadd⟩ := SuccessfulRun.bind_eq_ok_iff.1 hnext
        obtain ⟨us, hus, hfold⟩ := ih.1 hrest
        refine ⟨u :: us, .cons hu hus, ?_⟩
        exact SuccessfulRun.bind_eq_ok_iff.2 ⟨next, InputError.ofRefusal_eq_ok_iff.1 hadd, hfold⟩
      · rintro ⟨us, hus, hfold⟩
        obtain ⟨u, others, hu, hothers, rfl⟩ := List.forall₂_cons_left_iff.1 hus
        obtain ⟨next, hadd, hfold⟩ := SuccessfulRun.bind_eq_ok_iff.1 hfold
        refine ⟨next, ?_, ih.2 ⟨others, hothers, hfold⟩⟩
        exact SuccessfulRun.bind_eq_ok_iff.2 ⟨u, hu, InputError.ofRefusal_eq_ok_iff.2 hadd⟩

theorem neverFaults_addAll (c : Catalogue) (w : Weapon) (labels : List String) (s : Setup) :
    InputError.NeverFaults (addAll c w labels s) := by
  apply InputError.neverFaults_foldlM
  intro s label
  exact (c.neverFaults_upgrade label).bind fun u => InputError.neverFaults_ofRefusal w.id _

theorem addAll_perm {a : Augments} (h : labels.Perm labels')
    (hadded : addAll c w labels ⟨a, []⟩ = .ok s) :
    ∃ t, addAll c w labels' ⟨a, []⟩ = .ok t ∧
      ConfiguredWeapon.Reorders ⟨w, s⟩ ⟨w, t⟩ := by
  obtain ⟨us, hus, hfold⟩ := addAll_eq_ok_iff.1 hadded
  obtain ⟨⟨hscheme, hslot⟩, rfl⟩ := Setup.foldlM_addUpgrade_eq_ok_iff.1 hfold
  obtain ⟨us', hus', hperm⟩ := List.perm_comp_forall₂ h.symm hus
  have hkept : Setup.SchemeKept w us' ∧ us'.countP Upgrade.isSlot ≤ 1 :=
    ⟨hscheme.perm hperm.symm, hperm.countP_eq Upgrade.isSlot ▸ hslot⟩
  refine ⟨⟨a, us'⟩, addAll_eq_ok_iff.2 ⟨us', hus', ?_⟩, rfl, rfl, hperm.symm, hscheme⟩
  exact Setup.foldlM_addUpgrade_eq_ok_iff.2 ⟨hkept, rfl⟩

theorem alike_addAll {a : Augments} (h : labels.Perm labels') :
    InputError.Alike (fun s t => ConfiguredWeapon.Reorders ⟨w, s⟩ ⟨w, t⟩)
      (addAll c w labels ⟨a, []⟩) (addAll c w labels' ⟨a, []⟩) :=
  InputError.alike_of_perm (neverFaults_addAll c w · ⟨a, []⟩) (fun h _ hs => addAll_perm h hs) h

theorem upgrades_of_foldlM_setAugment {entries : List (Augment × Nat)}
    (h : entries.foldlM (fun s e => InputError.ofRefusal w.id (s.setAugment e.1 e.2)) s = .ok t) :
    t.upgrades = s.upgrades := by
  induction entries generalizing s with
  | nil => exact congrArg Setup.upgrades (Except.ok.inj h).symm
  | cons e rest ih =>
      obtain ⟨next, hnext, hrest⟩ := SuccessfulRun.bind_eq_ok_iff.1 h
      obtain ⟨-, -, rfl⟩ := Setup.setAugment_eq_ok_iff.1 (InputError.ofRefusal_eq_ok_iff.1 hnext)
      have hsame := ih hrest
      exact hsame

theorem alike_resolve (d : WeaponChoice) (h : d.upgrades.Perm labels) :
    InputError.Alike ConfiguredWeapon.Reorders (d.resolve c)
      ({ d with upgrades := labels }.resolve c) := by
  unfold resolve
  refine (InputError.Alike.refl _).bind ?_
  rintro id _ rfl
  refine (InputError.Alike.same (fun s => s.upgrades = []) ?_).bind ?_
  · intro s hs
    obtain ⟨-, -, -, rfl⟩ := Setup.setLevel_eq_ok_iff.1 (InputError.ofRefusal_eq_ok_iff.1 hs)
    rfl
  rintro leveled _ ⟨rfl, hleveled⟩
  refine (InputError.Alike.same (fun s => s.upgrades = []) ?_).bind ?_
  · intro s hs
    exact (upgrades_of_foldlM_setAugment hs).trans hleveled
  rintro ⟨augments, upgrades⟩ _ ⟨rfl, rfl⟩
  refine (alike_addAll h).bind ?_
  intro s t hst
  exact .accepted hst

end WeaponChoice

namespace Catalogue

variable {o : Outfit} {stats : WeaponStats} {decorations decorations' : List DecorationId}

theorem decorationsFit_perm (h : decorations.Perm decorations') :
    c.decorationsFit o stats decorations = c.decorationsFit o stats decorations' :=
  sizesFit_congr (h.map _)

theorem gearLevels_perm (h : decorations.Perm decorations') :
    c.gearLevels stats o decorations = c.gearLevels stats o decorations' := by
  rw [gearLevels_eq, gearLevels_eq]
  apply Tally.collect_perm
  exact (((h.flatMap_right _).append_left _).append_right _).append_right _

end Catalogue

/-- Whether two documents only differ in the order of decorations and upgrades. -/
structure BuildDraft.Reorders (d d' : BuildDraft) : Prop where
  upgrades : d.weapon.upgrades.Perm d'.weapon.upgrades
  decorations : d.decorations.Perm d'.decorations
  rest : d' = { d with
    weapon := { d.weapon with upgrades := d'.weapon.upgrades }
    decorations := d'.decorations }

namespace Build

/-- The same build with upgrades and decorations in another order. -/
structure Reorders (b b' : Build) : Prop where
  weapon : b.weapon.Reorders b'.weapon
  decorations : b.decorations.Perm b'.decorations
  outfit : b'.outfit = b.outfit
  consumables : b'.consumables = b.consumables
  requirements : b'.requirements = b.requirements

/-- Whether two builds bring the same weapon stats, skill levels and effective attack. -/
structure ReckonsAlike (c : Catalogue) (b b' : Build) : Prop where
  stats : b'.weapon.stats = b.weapon.stats
  levels : ∀ stats, b.weapon.stats = .ok stats →
    c.gearLevels stats b'.outfit b'.decorations = c.gearLevels stats b.outfit b.decorations
  effective : ∀ (R : Type) [Reckoning R],
    (c.gearEffective b'.requirements b'.consumables.boost b'.weapon b'.outfit b'.decorations :
      Except Fault (Effective R)) =
    c.gearEffective b.requirements b.consumables.boost b.weapon b.outfit b.decorations

theorem Reorders.reckonsAlike {b b' : Build} (h : b.Reorders b') : b.ReckonsAlike c b' := by
  have hlevels : ∀ stats, c.gearLevels stats b'.outfit b'.decorations =
      c.gearLevels stats b.outfit b.decorations := by
    intro stats
    rw [h.outfit, Catalogue.gearLevels_perm h.decorations]
  constructor
  · exact h.weapon.stats_eq
  · exact fun stats _ => hlevels stats
  · intro R _
    simp only [Catalogue.gearEffective, hlevels, h.weapon.stats_eq, h.weapon.weapon,
      h.consumables, h.requirements]

theorem alike_resolve {d d' : BuildDraft} (h : d.Reorders d') :
    InputError.Alike Reorders (resolve c d) (resolve c d') := by
  rw [h.rest]
  unfold resolve
  refine (WeaponChoice.alike_resolve d.weapon h.upgrades).bind ?_
  intro weapon weapon' hweapon
  refine (InputError.Alike.refl _).bind ?_
  rintro outfit _ rfl
  refine (InputError.alike_mapM_perm (InputError.neverFaults_find _ _) h.decorations).bind ?_
  intro decorations decorations' hdecorations
  rw [hweapon.stats_eq]
  refine (InputError.Alike.refl _).bind ?_
  rintro stats _ rfl
  simp only [Catalogue.decorationsFit_perm hdecorations]
  split
  next => exact .refused (fun f hf => by cases hf) (fun f hf => by cases hf)
  next =>
    refine (InputError.Alike.refl _).bind ?_
    rintro consumables _ rfl
    refine (InputError.Alike.refl _).bind ?_
    rintro requirements _ rfl
    exact .accepted ⟨hweapon, hdecorations, rfl, rfl, rfl⟩

/-- Documents that only differ in the order of decorations and upgrades are accepted together,
refused together or stop at the same fault, and what they are accepted as reckons alike. -/
theorem resolve_reorders {d d' : BuildDraft} (h : d.Reorders d') :
    InputError.Alike (ReckonsAlike c) (resolve c d) (resolve c d') :=
  (alike_resolve h).mono fun _ _ hb => hb.reckonsAlike

/-- A bow that can be awakened, a headpiece and jewels of two sizes. -/
def jewellerDraft : CatalogueDraft where
  skills := ⟨.ofList [("ATTACK_BOOST", ⟨"Attack Boost", 7, none, none, none⟩),
      ("CRITICAL_EYE", ⟨"Critical Eye", 7, none, none, none⟩)],
    .ofList [("GUILD", ⟨"Guild", [⟨2, "ATTACK_BOOST"⟩]⟩)]⟩
  decorations := [⟨"ATTACK_JEWEL", "Attack Jewel", 1, .ofList [("ATTACK_BOOST", 1)]⟩,
    ⟨"EXPERT_JEWEL", "Expert Jewel", 2, .ofList [("CRITICAL_EYE", 2)]⟩]
  armour := [⟨"Guild", .low, some "GUILD", .ofList [(.head, ⟨.ofList [("ATTACK_BOOST", 1)], [1]⟩)]⟩]
  charms := []
  weapons := [{
    id := "BOW", name := "Bow", weaponClass := .bow, rarity := 12, trueRaw := 100, affinity := 0
    skill := none, slots := [2], element := {}, gauge := none, constantSharpness := false
    augments := .iceborne, upgrades := .awakening ["GUILD"] }]
  buffs := []

def jewelledBow (upgrades decorations : List String) : BuildDraft where
  weapon := ⟨"BOW", 1, .ofList [(.affinity, 1)], upgrades⟩
  armour := .ofList [(.head, ⟨"Guild", .low⟩)]
  charm := none
  decorations := decorations
  buffs := []
  requirements := ⟨∅, ∅, [], ∅⟩
  damageModel := none

def oneOrder : BuildDraft :=
  jewelledBow ["SAFI_ATTACK_6", "SAFI_SLOT", "SAFI_SET_BONUS:GUILD"]
    ["ATTACK_JEWEL", "EXPERT_JEWEL", "ATTACK_JEWEL"]

def otherOrder : BuildDraft :=
  jewelledBow ["SAFI_SET_BONUS:GUILD", "SAFI_SLOT", "SAFI_ATTACK_6"]
    ["EXPERT_JEWEL", "ATTACK_JEWEL", "ATTACK_JEWEL"]

/-- The same order by a sort that evaluates. -/
theorem descending_eq_insertionSort (sizes : List Nat) :
    descending sizes = sizes.insertionSort fun a b => b ≤ a :=
  List.mergeSort_eq_insertionSort _ sizes

theorem resolve_reorders_bow :
    oneOrder.Reorders otherOrder ∧
      ∃ c b b', jewellerDraft.resolve = .ok c ∧ resolve c oneOrder = .ok b ∧
        resolve c otherOrder = .ok b' ∧ b.decorations ≠ b'.decorations ∧
        b.weapon.setup.upgrades ≠ b'.weapon.setup.upgrades ∧ b.ReckonsAlike c b' := by
  have hreorders : oneOrder.Reorders otherOrder := ⟨by decide, by decide, rfl⟩
  have hrun : (jewellerDraft.resolve.toOption.bind fun c =>
      (resolve c oneOrder).toOption.bind fun b => (resolve c otherOrder).toOption.map fun b' =>
        decide (b.decorations ≠ b'.decorations ∧
          b.weapon.setup.upgrades ≠ b'.weapon.setup.upgrades)) = some true := by
    simp only [resolve, Catalogue.decorationsFit, Catalogue.sizesFit, ConfiguredWeapon.stats,
      Setup.stats, descending_eq_insertionSort]
    decide +kernel
  obtain ⟨c, hc, hrun⟩ := Option.bind_eq_some_iff.1 hrun
  obtain ⟨b, hb, hrun⟩ := Option.bind_eq_some_iff.1 hrun
  obtain ⟨b', hb', hrun⟩ := Option.map_eq_some_iff.1 hrun
  obtain ⟨hdecorations, hupgrades⟩ := of_decide_eq_true hrun
  have hb := SuccessfulRun.toOption_eq_some_iff.1 hb
  have hb' := SuccessfulRun.toOption_eq_some_iff.1 hb'
  have halike := resolve_reorders (c := c) hreorders
  rw [hb, hb'] at halike
  exact ⟨hreorders, c, b, b', SuccessfulRun.toOption_eq_some_iff.1 hc, hb, hb', hdecorations,
    hupgrades, halike.of_ok⟩

end Build

end Reordering

end Loadout
