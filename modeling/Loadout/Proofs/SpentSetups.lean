import Loadout.Proofs.ReachableSetups
import Mathlib.Data.List.ProdSigma
import Mathlib.Data.Multiset.Filter

/-!
# Spent setups

A setup is spent if all augment steps are and no further upgrade can be taken, one awakening being
of the sixth level.  The fully spent setups list, up to the order of the upgrades, exactly the spent
setups that calls can reach: the upgrades of a spent setup fall into the parts that the listing is
put together from, and these parts can be told again from the multiset of upgrades.
-/

namespace Loadout

namespace Setup

def AugmentsSpent (w : Weapon) (a : Augments) : Prop :=
  w.augments = .none ∨ a.spent = maxAugmentLevel

def UpgradesSpent (w : Weapon) (us : List Upgrade) : Prop :=
  match w.upgrades with
  | .none => us = []
  | .custom => us.length = maxCustom
  | .awakening _ => us.length = maxAwakenings ∧ us.countP Upgrade.isLevelSix = 1

/-- Whether nothing more can be taken for a weapon, an awakening of the sixth level included. -/
structure Spent (w : Weapon) (s : Setup) : Prop where
  augments : AugmentsSpent w s.augments
  upgrades : UpgradesSpent w s.upgrades

/-- What is chosen, the upgrades in no order. -/
def content (s : Setup) : Augments × Multiset Upgrade := (s.augments, s.upgrades)

section Augmenting

variable {w : Weapon} {a : Augments}

theorem mem_fullAugments_iff : a ∈ fullAugments w ↔ AugmentsKept w a ∧ AugmentsSpent w a := by
  constructor
  · intro h
    refine ⟨augmentsKept_of_mem_full h, ?_⟩
    unfold fullAugments at h
    unfold AugmentsSpent
    cases hscheme : w.augments with
    | none => exact .inl rfl
    | iceborne =>
        rw [hscheme] at h
        have hall : ∀ a ∈ fullSplits maxAugmentLevel, a.spent = maxAugmentLevel := by decide
        exact .inr (hall a h)
  · rintro ⟨hkept, hspent⟩
    obtain ⟨level, attack, affinity, healthRegen, slot⟩ := a
    have hlevel : level ≤ 3 := hkept.level
    have hpaid : attack + affinity + healthRegen + slot ≤ level := hkept.paid
    have hregen : healthRegen ≤ 1 := hkept.healthRegen
    have hslot : slot ≤ 1 := hkept.slot
    unfold fullAugments
    cases hscheme : w.augments with
    | none =>
        have hnone : level = 0 := hkept.offered hscheme
        obtain ⟨rfl, rfl, rfl, rfl, rfl⟩ :
            level = 0 ∧ attack = 0 ∧ affinity = 0 ∧ healthRegen = 0 ∧ slot = 0 := by
          omega
        exact List.mem_singleton_self _
    | iceborne =>
        have hsteps : attack + affinity + healthRegen + slot = 3 := by
          rcases hspent with hnone | hspent
          · rw [hscheme] at hnone
            cases hnone
          · exact hspent
        simp only [fullSplits, maxAugmentLevel, List.mem_flatMap, List.mem_map, List.mem_range]
        refine ⟨healthRegen, by omega, slot, by omega, attack, by omega, ?_⟩
        simp only [Augments.mk.injEq, and_true, true_and]
        omega

theorem nodup_fullAugments (w : Weapon) : (fullAugments w).Nodup := by
  unfold fullAugments
  cases w.augments <;> decide

end Augmenting

section Customizing

variable {us : List Upgrade}

theorem perm_customs (h : ∀ u ∈ us, u.isCustom = true) :
    us.Perm (List.replicate (us.count .customAttack) .customAttack ++
      List.replicate (us.count .customAffinity) .customAffinity ++
        List.replicate (us.count .customSlot) .customSlot) := by
  rw [List.perm_iff_count]
  intro u
  cases hu : u.isCustom with
  | true => cases u <;> simp_all [Upgrade.isCustom, List.count_replicate]
  | false =>
      have hnone : us.count u = 0 := List.count_eq_zero_of_not_mem fun hmem => by
        rw [h u hmem] at hu
        cases hu
      cases u <;> simp_all [Upgrade.isCustom, List.count_replicate]

theorem exists_perm_fullCustom (hcustom : ∀ u ∈ us, u.isCustom = true)
    (hlength : us.length = maxCustom) (hslot : us.countP Upgrade.isSlot ≤ 1) :
    ∃ us' ∈ fullCustom, us.Perm us' := by
  have hperm := perm_customs hcustom
  have hsum := hperm.length_eq
  have hslots := hperm.countP_eq Upgrade.isSlot
  simp only [List.length_append, List.length_replicate, hlength] at hsum
  simp only [List.countP_append, List.countP_replicate, Upgrade.isSlot] at hslots
  simp only [Bool.false_eq_true, if_false, if_true, Nat.zero_add] at hslots
  have haffinity : us.count .customAffinity =
      maxCustom - us.count .customSlot - us.count .customAttack := by
    omega
  refine ⟨_, ?_, hperm⟩
  simp only [fullCustom, List.mem_flatMap, List.mem_map, List.mem_range]
  have hchoices : us.count .customSlot ∈ [0, 1] := by
    simp only [List.mem_cons, List.not_mem_nil, or_false]
    omega
  exact ⟨us.count .customSlot, hchoices, us.count .customAttack, by omega, by rw [haffinity]⟩

end Customizing

section Selecting

variable {items l : List Upgrade}

/-- Every choice of items with repetition is selected in some order. -/
theorem exists_perm_selections (h : ∀ u ∈ l, u ∈ items) :
    ∃ l' ∈ selections items l.length, l.Perm l' := by
  generalize hn : l.length = n
  induction items, n using selections.induct generalizing l with
  | case1 items =>
      rw [List.eq_nil_of_length_eq_zero hn, selections]
      exact ⟨[], List.mem_singleton_self _, .nil⟩
  | case2 n =>
      have hnil : l = [] := List.eq_nil_iff_forall_not_mem.2 fun u hu => by cases h u hu
      rw [hnil] at hn
      cases hn
  | case3 u rest n ihRest ihSame =>
      rw [selections]
      by_cases hu : u ∈ l
      · -- one copy of the first item is set aside, more may follow
        have herase : (l.erase u).length = n := by
          rw [List.length_erase_of_mem hu, hn, Nat.succ_sub_one]
        obtain ⟨l', hl', hperm⟩ := ihSame (fun v hv => h v (List.mem_of_mem_erase hv)) herase
        refine ⟨u :: l', List.mem_append_right _ (List.mem_map_of_mem hl'), ?_⟩
        exact (List.perm_cons_erase hu).trans (hperm.cons u)
      · have hrest : ∀ v ∈ l, v ∈ rest := by
          intro v hv
          rcases List.mem_cons.1 (h v hv) with rfl | hv'
          · exact absurd hv hu
          · exact hv'
        obtain ⟨l', hl', hperm⟩ := ihRest hrest hn
        exact ⟨l', List.mem_append_left _ hl', hperm⟩

theorem nodup_map_selections (h : items.Nodup) (n : Nat) :
    ((selections items n).map Multiset.ofList).Nodup := by
  induction items, n using selections.induct with
  | case1 items => simp [selections]
  | case2 n => simp [selections]
  | case3 u rest n ihRest ihSame =>
      obtain ⟨hu, hrest⟩ := List.nodup_cons.1 h
      rw [selections, List.map_append, List.map_map]
      refine List.nodup_append'.2 ⟨ihRest hrest, ?_, ?_⟩
      · have hcons : (selections (u :: rest) n).map (Multiset.ofList ∘ (u :: ·)) =
            ((selections (u :: rest) n).map Multiset.ofList).map (u ::ₘ ·) := by
          rw [List.map_map]
          rfl
        rw [hcons]
        exact (ihSame h).map fun _ _ heq => (Multiset.cons_inj_right u).1 heq
      · -- the first item is in all of the second selections and in none of the first
        refine List.disjoint_left.2 ?_
        intro m hm hm'
        obtain ⟨l, hl, rfl⟩ := List.mem_map.1 hm
        obtain ⟨l', -, heq⟩ := List.mem_map.1 hm'
        have hmem : u ∈ (l : Multiset Upgrade) := heq ▸ Multiset.mem_coe.2 List.mem_cons_self
        exact hu ((mem_of_mem_selections hl).2 u (Multiset.mem_coe.1 hmem))

end Selecting

section Awakening

variable {w : Weapon} {options : List BonusId} {us : List Upgrade}

def levelSixes (w : Weapon) : List Upgrade :=
  [.attack6, .affinity6] ++ if w.gauge.isSome then [Upgrade.sharpness6] else []

def levelFives (w : Weapon) : List Upgrade :=
  [.attack5, .affinity5] ++ if w.gauge.isSome then [Upgrade.sharpness5] else []

theorem fullAwakenings_eq (w : Weapon) (options : List BonusId) :
    fullAwakenings w options = (levelSixes w).flatMap fun six =>
      (singles options).flatMap fun single =>
        (selections (levelFives w) (maxAwakenings - 1 - single.length)).map fun others =>
          six :: others ++ single := rfl

/-- Whether an awakening is one of those that are taken at most once. -/
def isSingle (u : Upgrade) : Bool := u.isSlot || u.bonus?.isSome

theorem mem_levelSixes_iff {u : Upgrade} :
    u ∈ levelSixes w ↔
      u.isLevelSix = true ∧ (u.isSharpness = true → w.gauge.isNone = false) := by
  unfold levelSixes
  cases w.gauge <;> cases u <;> simp [Upgrade.isLevelSix, Upgrade.isSharpness]

theorem mem_levelFives_iff {u : Upgrade} :
    u ∈ levelFives w ↔ u.isCustom = false ∧ u.isLevelSix = false ∧ isSingle u = false ∧
      (u.isSharpness = true → w.gauge.isNone = false) := by
  unfold levelFives isSingle
  cases w.gauge <;> cases u <;>
    simp [Upgrade.isCustom, Upgrade.isLevelSix, Upgrade.isSlot, Upgrade.bonus?,
      Upgrade.isSharpness]

theorem isSingle_of_mem_singles {single : List Upgrade} (h : single ∈ singles options) :
    ∀ u ∈ single, isSingle u = true := by
  simp only [singles, List.mem_cons, List.mem_flatMap, List.not_mem_nil, or_false] at h
  rcases h with rfl | rfl | ⟨b, -, rfl | rfl⟩ <;> simp [isSingle, Upgrade.isSlot, Upgrade.bonus?]

theorem eq_nil_or_singleton {l : List Upgrade} (h : l.length ≤ 1) :
    l = [] ∨ ∃ u, l = [u] := by
  cases l with
  | nil => exact .inl rfl
  | cons u rest =>
      have hrest : rest = [] := List.eq_nil_of_length_eq_zero (by simpa using h)
      exact .inr ⟨u, by rw [hrest]⟩

theorem exists_perm_singles (h : AwakeningsKept w options us)
    (hslot : us.countP Upgrade.isSlot ≤ 1) :
    ∃ single ∈ singles options, (us.filter isSingle).Perm single := by
  have hsplit : (us.filter isSingle).Perm
      (us.filter Upgrade.isSlot ++ us.filter (·.bonus?.isSome)) := by
    have hparts := (List.filter_append_perm Upgrade.isSlot (us.filter isSingle)).symm
    have hfirst : ∀ u : Upgrade, (u.isSlot && isSingle u) = u.isSlot := by
      intro u
      cases u <;> rfl
    have hsecond : ∀ u : Upgrade, ((!u.isSlot) && isSingle u) = u.bonus?.isSome := by
      intro u
      cases u <;> rfl
    simpa only [List.filter_filter, hfirst, hsecond] using hparts
  have hslots : us.filter Upgrade.isSlot = [] ∨ us.filter Upgrade.isSlot = [.slot] := by
    rw [List.countP_eq_length_filter] at hslot
    rcases eq_nil_or_singleton hslot with hnil | ⟨u, hu⟩
    · exact .inl hnil
    · have hmem : u ∈ us.filter Upgrade.isSlot := hu ▸ List.mem_singleton_self u
      obtain ⟨hin, his⟩ := List.mem_filter.1 hmem
      have hawakening := h.awakenings u hin
      cases u <;> simp_all [Upgrade.isSlot, Upgrade.isCustom]
  have hbonuses : us.filter (·.bonus?.isSome) = [] ∨
      ∃ b ∈ options, us.filter (·.bonus?.isSome) = [.bonus b] := by
    have hbonus := h.bonus
    rw [List.countP_eq_length_filter] at hbonus
    rcases eq_nil_or_singleton hbonus with hnil | ⟨u, hu⟩
    · exact .inl hnil
    · have hmem : u ∈ us.filter (·.bonus?.isSome) := hu ▸ List.mem_singleton_self u
      obtain ⟨hin, his⟩ := List.mem_filter.1 hmem
      have hoffered := h.offered u hin
      cases u <;> simp_all [Upgrade.bonus?]
  refine ⟨_, ?_, hsplit⟩
  simp only [singles, List.mem_cons, List.mem_flatMap, List.not_mem_nil, or_false]
  rcases hslots with hslots | hslots <;> rcases hbonuses with hbonuses | ⟨b, hb, hbonuses⟩ <;>
    rw [hslots, hbonuses]
  · exact .inl rfl
  · exact .inr (.inr ⟨b, hb, .inl rfl⟩)
  · exact .inr (.inl rfl)
  · exact .inr (.inr ⟨b, hb, .inr rfl⟩)

/-- Upgrades fall into those of the sixth level, the single ones and all others. -/
theorem perm_parts (us : List Upgrade) :
    us.Perm (us.filter Upgrade.isLevelSix ++
      us.filter (fun u => !isSingle u && !u.isLevelSix) ++ us.filter isSingle) := by
  have hlevels := List.filter_append_perm Upgrade.isLevelSix us
  have hrest := List.filter_append_perm isSingle (us.filter fun u => !u.isLevelSix)
  have hlow : ∀ u : Upgrade, (isSingle u && !u.isLevelSix) = isSingle u := by
    intro u
    cases u <;> rfl
  simp only [List.filter_filter, hlow] at hrest
  rw [List.append_assoc]
  exact hlevels.symm.trans ((hrest.symm.trans List.perm_append_comm).append_left _)

/-- Five awakenings are put together from one of the sixth level, single ones and fifth levels. -/
theorem exists_perm_fullAwakenings (h : AwakeningsKept w options us)
    (hslot : us.countP Upgrade.isSlot ≤ 1) (hlength : us.length = maxAwakenings)
    (hsix : us.countP Upgrade.isLevelSix = 1) :
    ∃ us' ∈ fullAwakenings w options, us.Perm us' := by
  have hparts := perm_parts us
  obtain ⟨six, hsixes⟩ : ∃ six, us.filter Upgrade.isLevelSix = [six] := by
    rw [List.countP_eq_length_filter] at hsix
    exact List.length_eq_one_iff.1 hsix
  obtain ⟨single, hsingle, hsinglePerm⟩ := exists_perm_singles h hslot
  generalize hfives : us.filter (fun u => !isSingle u && !u.isLevelSix) = fives at hparts
  have hfivesListed : ∀ u ∈ fives, u ∈ levelFives w := by
    intro u hu
    simp only [← hfives, List.mem_filter, Bool.and_eq_true, Bool.not_eq_true'] at hu
    obtain ⟨hin, hplain, hlow⟩ := hu
    exact mem_levelFives_iff.2 ⟨h.awakenings u hin, hlow, hplain, h.sharpness u hin⟩
  have hsixListed : six ∈ levelSixes w := by
    have hmem : six ∈ us.filter Upgrade.isLevelSix := hsixes ▸ List.mem_singleton_self six
    obtain ⟨hin, hhigh⟩ := List.mem_filter.1 hmem
    exact mem_levelSixes_iff.2 ⟨hhigh, h.sharpness six hin⟩
  have hcount : fives.length = maxAwakenings - 1 - single.length := by
    have hsum := hparts.length_eq
    simp only [hsixes, List.length_append, List.length_singleton, hsinglePerm.length_eq,
      hlength] at hsum
    omega
  obtain ⟨others, hothers, hothersPerm⟩ := exists_perm_selections hfivesListed
  rw [hcount] at hothers
  refine ⟨six :: others ++ single, ?_, ?_⟩
  · rw [fullAwakenings_eq]
    simp only [List.mem_flatMap, List.mem_map]
    exact ⟨six, hsixListed, single, hsingle, others, hothers, rfl⟩
  · rw [hsixes] at hparts
    exact hparts.trans ((hothersPerm.cons six).append hsinglePerm)

theorem spent_of_mem_fullAwakenings (h : us ∈ fullAwakenings w options) :
    us.length = maxAwakenings ∧ us.countP Upgrade.isLevelSix = 1 := by
  rw [fullAwakenings_eq] at h
  obtain ⟨six, hsix, h⟩ := List.mem_flatMap.1 h
  obtain ⟨single, hsingle, h⟩ := List.mem_flatMap.1 h
  obtain ⟨others, hothers, rfl⟩ := List.mem_map.1 h
  obtain ⟨hlength, hfives⟩ := mem_of_mem_selections hothers
  have hsingle := singlesKept_of_mem hsingle
  have hhigh : six.isLevelSix = true := (mem_levelSixes_iff.1 hsix).1
  have hlow : others.countP Upgrade.isLevelSix = 0 := by
    rw [List.countP_eq_zero]
    intro u hu
    rw [(mem_levelFives_iff.1 (hfives u hu)).2.1]
    exact Bool.false_ne_true
  constructor
  · have hmax : maxAwakenings = 5 := rfl
    have hshort := hsingle.length
    simp only [List.cons_append, List.length_cons, List.length_append, hlength]
    omega
  · rw [List.cons_append, List.countP_cons, List.countP_append, hlow, hsingle.levelFive,
      if_pos hhigh]

theorem nodup_levelSixes (w : Weapon) : (levelSixes w).Nodup := by
  unfold levelSixes
  cases w.gauge <;> simp

theorem nodup_levelFives (w : Weapon) : (levelFives w).Nodup := by
  unfold levelFives
  cases w.gauge <;> simp

theorem filter_isLevelSix_parts {six : Upgrade} {others single : List Upgrade}
    (hsix : six ∈ levelSixes w) (hothers : ∀ u ∈ others, u ∈ levelFives w)
    (hsingle : single ∈ singles options) :
    (six :: others ++ single).filter Upgrade.isLevelSix = [six] := by
  have hfives : others.filter Upgrade.isLevelSix = [] := by
    rw [List.filter_eq_nil_iff]
    intro u hu
    simp [(mem_levelFives_iff.1 (hothers u hu)).2.1]
  have hlow : single.filter Upgrade.isLevelSix = [] := by
    rw [← List.length_eq_zero_iff, ← List.countP_eq_length_filter]
    exact (singlesKept_of_mem hsingle).levelFive
  rw [List.cons_append, List.filter_cons_of_pos (mem_levelSixes_iff.1 hsix).1, List.filter_append,
    hfives, hlow, List.append_nil]

theorem filter_isSingle_parts {six : Upgrade} {others single : List Upgrade}
    (hsix : six ∈ levelSixes w) (hothers : ∀ u ∈ others, u ∈ levelFives w)
    (hsingle : single ∈ singles options) :
    (six :: others ++ single).filter isSingle = single := by
  have hhigh : ¬ isSingle six = true := by
    have hlevel := (mem_levelSixes_iff.1 hsix).1
    cases six <;> simp_all [Upgrade.isLevelSix, isSingle, Upgrade.isSlot, Upgrade.bonus?]
  have hfives : others.filter isSingle = [] := by
    rw [List.filter_eq_nil_iff]
    intro u hu
    simp [(mem_levelFives_iff.1 (hothers u hu)).2.2.1]
  rw [List.cons_append, List.filter_cons_of_neg hhigh, List.filter_append, hfives, List.nil_append,
    List.filter_eq_self.2 (isSingle_of_mem_singles hsingle)]

theorem nodup_map_singles (h : options.Nodup) :
    ((singles options).map Multiset.ofList).Nodup := by
  have hpairs : (options.flatMap fun b => [[Upgrade.bonus b], [.slot, .bonus b]]).Nodup := by
    refine List.nodup_flatMap.2 ⟨fun b _ => by simp, h.imp ?_⟩
    intro b b' hne
    simp [Function.onFun, List.disjoint_left, hne]
  have hbonus : ∀ l ∈ options.flatMap fun b => [[Upgrade.bonus b], [.slot, .bonus b]],
      ∃ b, l = [.bonus b] ∨ l = [.slot, .bonus b] := by
    intro l hl
    obtain ⟨b, -, hl⟩ := List.mem_flatMap.1 hl
    exact ⟨b, by simpa using hl⟩
  have hnodup : (singles options).Nodup := by
    rw [singles, List.nodup_cons, List.nodup_cons]
    refine ⟨?_, ?_, hpairs⟩
    · simp
    · simp
  refine hnodup.map_on ?_
  -- at most a slot and a set bonus, which are told apart in any order
  intro l hl l' hl' heq
  have hperm : l.Perm l' := Multiset.coe_eq_coe.1 heq
  simp only [singles, List.mem_cons] at hl hl'
  rcases hl with rfl | rfl | hl
  · exact hperm.nil_eq
  · exact (List.perm_singleton.1 hperm.symm).symm
  · obtain ⟨b, rfl | rfl⟩ := hbonus l hl
    · exact (List.perm_singleton.1 hperm.symm).symm
    · rcases hl' with rfl | rfl | hl'
      · exact absurd hperm.length_eq (by simp)
      · exact absurd hperm.length_eq (by simp)
      · obtain ⟨b', rfl | rfl⟩ := hbonus l' hl'
        · exact absurd hperm.length_eq (by simp)
        · have hsame := (List.perm_cons _).1 hperm
          rw [List.perm_singleton.1 hsame]

/-- The sixth level and the single awakenings can be told from the multiset. -/
theorem parts_of_mem_awakenings {six : Upgrade} {single : List Upgrade} {m : Multiset Upgrade}
    (hsix : six ∈ levelSixes w) (hsingle : single ∈ singles options)
    (hm : m ∈ ((selections (levelFives w) (maxAwakenings - 1 - single.length)).map
      fun others => six :: others ++ single).map Multiset.ofList) :
    m.filter (·.isLevelSix = true) = {six} ∧ m.filter (isSingle · = true) = single := by
  rw [List.map_map] at hm
  obtain ⟨others, hothers, rfl⟩ := List.mem_map.1 hm
  have hfives := (mem_of_mem_selections hothers).2
  constructor
  · have hparts := filter_isLevelSix_parts hsix hfives hsingle
    simpa using congrArg Multiset.ofList hparts
  · have hparts := filter_isSingle_parts hsix hfives hsingle
    simpa using congrArg Multiset.ofList hparts

theorem nodup_map_fullAwakenings (h : options.Nodup) :
    ((fullAwakenings w options).map Multiset.ofList).Nodup := by
  rw [fullAwakenings_eq, List.map_flatMap]
  simp only [List.map_flatMap]
  refine List.nodup_flatMap.2 ⟨?_, ?_⟩
  · intro six hsix
    refine List.nodup_flatMap.2 ⟨?_, ?_⟩
    · intro single _
      have hparts : ((selections (levelFives w) (maxAwakenings - 1 - single.length)).map
          fun others => six :: others ++ single).map Multiset.ofList =
            ((selections (levelFives w) (maxAwakenings - 1 - single.length)).map
              Multiset.ofList).map fun m => six ::ₘ (m + single) := by
        rw [List.map_map, List.map_map]
        rfl
      rw [hparts]
      refine (nodup_map_selections (nodup_levelFives w) _).map ?_
      intro m m' heq
      exact Multiset.add_left_inj.1 ((Multiset.cons_inj_right six).1 heq)
    · have hsingles := List.pairwise_map.1 (nodup_map_singles h)
      refine hsingles.imp_of_mem ?_
      intro single single' hsingle hsingle' hne
      refine List.disjoint_left.2 ?_
      intro m hm hm'
      have hfirst := (parts_of_mem_awakenings hsix hsingle hm).2
      have hsecond := (parts_of_mem_awakenings hsix hsingle' hm').2
      exact hne (hfirst.symm.trans hsecond)
  · refine (nodup_levelSixes w).imp_of_mem ?_
    intro six six' hsix hsix' hne
    refine List.disjoint_left.2 ?_
    intro m hm hm'
    obtain ⟨single, hsingle, hm⟩ := List.mem_flatMap.1 hm
    obtain ⟨single', hsingle', hm'⟩ := List.mem_flatMap.1 hm'
    have hfirst := (parts_of_mem_awakenings hsix hsingle hm).1
    have hsecond := (parts_of_mem_awakenings hsix' hsingle' hm').1
    exact hne (Multiset.singleton_inj.1 (hfirst.symm.trans hsecond))

end Awakening

section Listing

variable {w : Weapon} {s : Setup} {us : List Upgrade}

theorem exists_perm_fullUpgrades (hscheme : SchemeKept w us)
    (hslot : us.countP Upgrade.isSlot ≤ 1) (hspent : UpgradesSpent w us) :
    ∃ us' ∈ fullUpgrades w, us.Perm us' := by
  unfold SchemeKept at hscheme
  unfold UpgradesSpent at hspent
  unfold fullUpgrades
  cases hoffer : w.upgrades with
  | none =>
      rw [hoffer] at hscheme
      exact ⟨[], List.mem_singleton_self _, .of_eq hscheme⟩
  | custom =>
      rw [hoffer] at hscheme hspent
      exact exists_perm_fullCustom hscheme.1 hspent hslot
  | awakening options =>
      rw [hoffer] at hscheme hspent
      exact exists_perm_fullAwakenings hscheme hslot hspent.1 hspent.2

theorem spent_of_mem_fullUpgrades (h : us ∈ fullUpgrades w) : UpgradesSpent w us := by
  unfold fullUpgrades at h
  unfold UpgradesSpent
  cases hoffer : w.upgrades with
  | none =>
      rw [hoffer] at h
      exact List.mem_singleton.1 h
  | custom =>
      rw [hoffer] at h
      have hall : ∀ us ∈ fullCustom, us.length = maxCustom := by decide
      exact hall us h
  | awakening options =>
      rw [hoffer] at h
      exact spent_of_mem_fullAwakenings h

theorem nodup_map_fullUpgrades
    (h : ∀ options, w.upgrades = .awakening options → options.Nodup) :
    ((fullUpgrades w).map Multiset.ofList).Nodup := by
  have hcustom : (fullCustom.map Multiset.ofList).Nodup := by decide
  unfold fullUpgrades
  cases hoffer : w.upgrades with
  | none => exact List.nodup_singleton _
  | custom => exact hcustom
  | awakening options => exact nodup_map_fullAwakenings (h options hoffer)

theorem exists_calls_iff : (∃ calls, afterAll w calls = s) ↔ Kept w s := by
  constructor
  · rintro ⟨calls, rfl⟩
    exact (kept_fresh w).foldl_after calls
  · intro h
    exact ⟨s.calls, h.afterAll_calls⟩

theorem spent_of_mem_full (h : s ∈ full w) : Spent w s := by
  obtain ⟨augments, haugments, h⟩ := List.mem_flatMap.1 h
  obtain ⟨upgrades, hupgrades, rfl⟩ := List.mem_map.1 h
  exact ⟨(mem_fullAugments_iff.1 haugments).2, spent_of_mem_fullUpgrades hupgrades⟩

/-- A spent setup that keeps the rules is listed with its upgrades in some order. -/
theorem Spent.exists_full (hspent : Spent w s) (hkept : Kept w s) :
    ∃ us ∈ fullUpgrades w, s.upgrades.Perm us ∧ ⟨s.augments, us⟩ ∈ full w := by
  obtain ⟨us, hus, hperm⟩ := exists_perm_fullUpgrades hkept.scheme hkept.slot hspent.upgrades
  have haugments := mem_fullAugments_iff.2 ⟨hkept.augments, hspent.augments⟩
  exact ⟨us, hus, hperm, List.mem_flatMap.2 ⟨_, haugments, List.mem_map_of_mem hus⟩⟩

theorem map_content_full (w : Weapon) :
    (full w).map content = fullAugments w ×ˢ (fullUpgrades w).map Multiset.ofList := by
  simp only [full, SProd.sprod, List.product, List.map_flatMap, List.map_map]
  rfl

/-- The fully spent setups have, up to the order of upgrades, exactly the contents of the spent
setups that calls lead to.  No content is listed twice if no set bonus is offered twice. -/
theorem content_of_full (w : Weapon) :
    (∀ chosen, chosen ∈ (full w).map content ↔
      ∃ s, (∃ calls, afterAll w calls = s) ∧ Spent w s ∧ s.content = chosen) ∧
      ((∀ options, w.upgrades = .awakening options → options.Nodup) →
        ((full w).map content).Nodup) := by
  constructor
  · intro chosen
    rw [List.mem_map]
    constructor
    · rintro ⟨s, hs, rfl⟩
      exact ⟨s, exists_calls_iff.2 (kept_of_mem_full hs), spent_of_mem_full hs, rfl⟩
    · rintro ⟨s, hcalls, hspent, rfl⟩
      obtain ⟨us, -, hperm, hfull⟩ := hspent.exists_full (exists_calls_iff.1 hcalls)
      exact ⟨_, hfull, congrArg (Prod.mk s.augments) (Multiset.coe_eq_coe.2 hperm.symm)⟩
  · intro hoptions
    rw [map_content_full]
    exact (nodup_fullAugments w).product (nodup_map_fullUpgrades hoptions)

end Listing

/-- A sword with augments and awakenings, one of which may add a piece of a set. -/
def awakenedSword : Weapon where
  id := "SWORD"
  name := "Sword"
  weaponClass := .greatsword
  rarity := 12
  trueRaw := 320
  affinity := 0
  skill := none
  decoSlots := [1]
  element := {}
  gauge := some ⟨[50, 50, 60, 60, 80, 60, 40], by decide, by decide⟩
  constantSharpness := false
  augments := .iceborne
  upgrades := .awakening [.ofIndex 0]

/-- Calls to a spent setup, in an order in which the setup is not listed. -/
def swordCalls : List Call :=
  [.upgrade (.bonus (.ofIndex 0)), .level 3, .augment .healthRegen 1, .augment .attack 2,
    .upgrade .sharpness5, .upgrade .attack6, .upgrade .slot, .upgrade .sharpness5]

theorem content_of_full_sword :
    [BonusId.ofIndex 0].Nodup ∧ ((full awakenedSword).map content).Nodup ∧
      ({ level := 3, attack := 2, healthRegen := 1 },
        Multiset.ofList [.slot, .sharpness5, .bonus (.ofIndex 0), .sharpness5, .attack6]) ∈
          (full awakenedSword).map content := by
  have hoptions : [BonusId.ofIndex 0].Nodup := List.nodup_singleton _
  obtain ⟨hlisted, hnodup⟩ := content_of_full awakenedSword
  refine ⟨hoptions, hnodup ?_, (hlisted _).2 ⟨_, ⟨swordCalls, rfl⟩, ⟨.inr rfl, ?_⟩, ?_⟩⟩
  · intro options heq
    rw [← UpgradeScheme.awakening.inj heq]
    exact hoptions
  · exact ⟨rfl, rfl⟩
  · refine congrArg (Prod.mk _) (Multiset.coe_eq_coe.2 ?_)
    decide

end Setup

end Loadout
