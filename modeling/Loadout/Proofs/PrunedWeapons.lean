import Loadout.Proofs.CeilingBound
import Loadout.Proofs.DominatedWeapons
import Loadout.Proofs.LargerPairings
import Loadout.Proofs.SearchInOrder

/-!
# Pruned weapons

A search pairs its armour sets with the candidates only, not with the configurations that they
dominate.  Nothing is lost as long as every candidate stands in for what it dominates: slots that
differ can be harder to fill, an extra set bonus can reach its cutoff, an extra skill can leave
decorations without use, and bludgeoner can prefer the blunter blade.
-/

namespace Loadout

/-- The highest number of a list is that of any other list that reaches just as high. -/
theorem max?_eq_of_cofinal {l m : List Rat} (h : ∀ a ∈ l, ∃ b ∈ m, a ≤ b)
    (h' : ∀ b ∈ m, ∃ a ∈ l, b ≤ a) : l.max? = m.max? := by
  cases hl : l.max? with
  | none =>
      rw [List.max?_eq_none_iff] at hl
      have hm : m = [] := List.eq_nil_iff_forall_not_mem.2 fun b hb => by
        obtain ⟨a, ha, -⟩ := h' b hb
        simp [hl] at ha
      rw [hm, List.max?_nil]
  | some a =>
      obtain ⟨ha, hmax⟩ := List.max?_eq_some_iff.1 hl
      have hle : ∀ b ∈ m, b ≤ a := fun b hb => by
        obtain ⟨a', ha', hba'⟩ := h' b hb
        exact hba'.trans (hmax a' ha')
      obtain ⟨b, hb, hab⟩ := h a ha
      have hmem : a ∈ m := le_antisymm hab (hle b hb) ▸ hb
      exact (List.max?_eq_some_iff.2 ⟨hmem, hle⟩).symm

/-- Whether levels are what requirements can count: of relevant skills, none above its cap. -/
structure Requirements.Counts (r : Requirements) (t : SkillTable) (levels : SkillLevels) :
    Prop where
  capped : levels.Capped t.cap
  relevant : ∀ s, 0 < levels.count s → r.relevant s = true

theorem Requirements.counts_restrictLevels {r : Requirements} {t : SkillTable}
    {levels : SkillLevels} (h : levels.Capped t.cap) : r.Counts t (r.restrictLevels levels) where
  capped := h.keep _
  relevant s hs := by
    rw [restrictLevels, Tally.count_keep] at hs
    by_contra hrelevant
    rw [if_neg hrelevant] at hs
    exact Nat.lt_irrefl 0 hs

namespace WeaponStats

/-- What a weapon needs beside dominance to stand in for another one in every build.  Only a skill
or a set bonus of its own lets it have other levels than the other one. -/
structure StandsInFor (t : SkillTable) (r : Requirements) (mine theirs : WeaponStats) : Prop where
  slots : mine.slots = theirs.slots
  skill : mine.skill = theirs.skill ∨ mine.slots = []
  bonus : mine.bonus = theirs.bonus ∨ ∀ b, mine.bonus = some b → r.cutoffs.contains b = false
  blades : mine.gauge.isSome = theirs.gauge.isSome
  bludgeoner : ∀ levels levels' : SkillLevels, r.Counts t levels → r.Counts t levels' →
    (∀ s, levels.count s ≤ levels'.count s) →
    (mine.skill = theirs.skill → mine.bonus = theirs.bonus → levels = levels') →
    Modifiers.bludgeonerGain t r theirs levels ≤ Modifiers.bludgeonerGain t r mine levels'

/-- Every weapon stands in for itself. -/
theorem StandsInFor.refl (t : SkillTable) (r : Requirements) (stats : WeaponStats) :
    StandsInFor t r stats stats where
  slots := rfl
  skill := .inl rfl
  bonus := .inl rfl
  blades := rfl
  bludgeoner levels levels' _ _ _ hsame := by rw [hsame rfl rfl]

/-- Whether two weapons without blades agree in everything that pairings look at beside stats. -/
def RangedAlike (mine theirs : WeaponStats) : Prop :=
  mine.slots = theirs.slots ∧ mine.skill = theirs.skill ∧ mine.bonus = theirs.bonus ∧
    mine.gauge = none ∧ theirs.gauge = none

instance (mine theirs : WeaponStats) : Decidable (RangedAlike mine theirs) :=
  inferInstanceAs (Decidable (_ ∧ _))

theorem RangedAlike.bludgeonerGain_eq {mine theirs : WeaponStats} (h : RangedAlike mine theirs)
    (t : SkillTable) (r : Requirements) (levels : SkillLevels) :
    Modifiers.bludgeonerGain t r theirs levels = 0 := by
  obtain ⟨-, -, -, -, htheirs⟩ := h
  rw [Modifiers.bludgeonerGain, Modifiers.bladeOf, Modifiers.gaugeOf, htheirs]
  rfl

theorem RangedAlike.standsInFor {mine theirs : WeaponStats} (h : RangedAlike mine theirs)
    (t : SkillTable) (r : Requirements) : StandsInFor t r mine theirs := by
  have hgain := h.bludgeonerGain_eq t r
  obtain ⟨hslots, hskill, hbonus, hmine, htheirs⟩ := h
  refine ⟨hslots, .inl hskill, .inl hbonus, by rw [hmine, htheirs], fun levels _ _ _ _ _ => ?_⟩
  rw [hgain levels]
  exact Nat.zero_le _

end WeaponStats

/-- A configuration in the place of a candidate; pairings do not look at its ceiling. -/
def Candidate.ofConfiguration (k : ConfiguredWeapon × WeaponStats) : Candidate Rat := ⟨k.1, k.2, 0⟩

namespace Setting

theorem finds_ofConfiguration (x : Setting Rat) (set : ArmourSet) (w : Candidate Rat) :
    x.finds set (.ofConfiguration (w.weapon, w.stats)) = x.finds set w := rfl

/-- The highest effective raw attack of all builds of all pairings, if there are any. -/
def bestRaw (x : Setting Rat) (sets : List ArmourSet) (candidates : List (Candidate Rat)) :
    Option Rat :=
  ((x.allBuilds sets candidates).map (·.effective.raw)).max?

section Best

variable {x : Setting Rat}

theorem mem_allBuilds {sets : List ArmourSet} {candidates : List (Candidate Rat)} {f : Find Rat} :
    f ∈ x.allBuilds sets candidates ↔
      ∃ set ∈ sets, ∃ w ∈ candidates, f ∈ x.builds set w := by
  simp only [allBuilds, List.mem_flatMap]

theorem bestRaw_eq_of_matched {sets : List ArmourSet} {candidates others : List (Candidate Rat)}
    (hsub : ∀ set ∈ sets, ∀ w ∈ candidates, ∃ k ∈ others, x.builds set w = x.builds set k)
    (hmatched : ∀ set ∈ sets, ∀ k ∈ others, ∀ f ∈ x.builds set k,
      ∃ w ∈ candidates, ∃ g ∈ x.builds set w, f.effective.raw ≤ g.effective.raw) :
    x.bestRaw sets candidates = x.bestRaw sets others := by
  apply max?_eq_of_cofinal
  · intro a ha
    obtain ⟨f, hf, rfl⟩ := List.mem_map.1 ha
    obtain ⟨set, hset, w, hw, hf⟩ := mem_allBuilds.1 hf
    obtain ⟨k, hk, hsame⟩ := hsub set hset w hw
    have hmem : f ∈ x.allBuilds sets others := mem_allBuilds.2 ⟨set, hset, k, hk, hsame ▸ hf⟩
    exact ⟨_, List.mem_map_of_mem hmem, le_rfl⟩
  · intro b hb
    obtain ⟨f, hf, rfl⟩ := List.mem_map.1 hb
    obtain ⟨set, hset, k, hk, hf⟩ := mem_allBuilds.1 hf
    obtain ⟨w, hw, g, hg, hle⟩ := hmatched set hset k hk f hf
    have hmem : g ∈ x.allBuilds sets candidates := mem_allBuilds.2 ⟨set, hset, w, hw, hg⟩
    exact ⟨_, List.mem_map_of_mem hmem, hle⟩

end Best

variable {R : Type} {x : Setting R} {set set' : ArmourSet} {mine theirs : Candidate R}

theorem withinCutoffs_of_standsInFor (hset : set.signature.Within x.skills x.requirements)
    (h : mine.stats.StandsInFor x.skills x.requirements theirs.stats)
    (hwithin : x.requirements.withinCutoffs (pairedPieces set theirs) = true) :
    x.requirements.withinCutoffs (pairedPieces set mine) = true := by
  refine Requirements.withinCutoffs_of_count_le (fun b hb => ?_) hwithin
  rw [count_pairedPieces hset.pieces, count_pairedPieces hset.pieces]
  rcases h.bonus with hsame | hfree
  · rw [hsame]
  · have hother : mine.stats.bonus ≠ some b := fun hmine => by
      simp [hfree b hmine] at hb
    rw [if_neg hother]
    omega

theorem exists_packing_of_standsInFor (hset : set.signature.Within x.skills x.requirements)
    (hdominates : mine.stats.Dominates theirs.stats)
    (h : mine.stats.StandsInFor x.skills x.requirements theirs.stats)
    {packings others : List Packing}
    (hmine : Packing.all x.skills x.decorations mine.stats.slots (x.pairedLevels set mine) =
      .ok packings)
    (htheirs : Packing.all x.skills x.decorations theirs.stats.slots (x.pairedLevels set theirs) =
      .ok others) {p : Packing} (hp : p ∈ others) :
    ∃ p' ∈ packings, (∀ s, p.levels.count s ≤ p'.levels.count s) ∧
      (mine.stats.skill = theirs.stats.skill → p' = p) := by
  by_cases hsame : mine.stats.skill = theirs.stats.skill
  · -- the same slots above the same levels have the same packings
    have hlevels : x.pairedLevels set mine = x.pairedLevels set theirs := by
      rw [pairedLevels, pairedLevels, hsame]
    rw [h.slots, hlevels, htheirs] at hmine
    cases hmine
    exact ⟨p, hp, fun _ => le_rfl, fun _ => rfl⟩
  · -- without slots the one packing is empty, so nothing is asked of the extra skill
    have hnone := h.skill.resolve_left hsame
    rw [← h.slots, hnone] at htheirs
    rw [hnone] at hmine
    refine ⟨_, Packing.empty_mem_all_nil hmine, fun s => ?_, fun h => absurd h hsame⟩
    rw [Packing.levels_of_mem_all_nil htheirs hp]
    exact count_pairedLevels_mono hset.levels hset.levels (fun _ => le_rfl) hdominates.skill s

/-- The relevant levels of a pairing with a packing. -/
def pairedTotal (x : Setting R) (set : ArmourSet) (w : Candidate R) (p : Packing) :
    SkillLevels :=
  x.requirements.restrictLevels (SkillLevels.grant x.skills p.levels (pairedPieces set w))

theorem counts_pairedTotal {w : Candidate R} {p : Packing} (hp : p.levels.Capped x.skills.cap) :
    x.requirements.Counts x.skills (x.pairedTotal set w p) := by
  rw [pairedTotal, SkillLevels.grant, SkillLevels.gainAll_eq_raiseAll]
  exact Requirements.counts_restrictLevels (hp.raiseAll _)

/-- A larger set with a dominating weapon and more packed levels has no relevant level fewer. -/
theorem count_pairedTotal_mono (hset : set.signature.Within x.skills x.requirements)
    (hset' : set'.signature.Within x.skills x.requirements)
    (hle : set.signature ≤ set'.signature) (hdominates : mine.stats.Dominates theirs.stats)
    {p p' : Packing} (hp : p.levels.Capped x.skills.cap) (hp' : p'.levels.Capped x.skills.cap)
    (hlevels : ∀ s, p.levels.count s ≤ p'.levels.count s) (s : SkillId) :
    (x.pairedTotal set theirs p).count s ≤ (x.pairedTotal set' mine p').count s := by
  have hpieces := count_pairedPieces_mono hset.pieces hset'.pieces (fun b => hle (.bonus b))
    hdominates.bonus
  exact Requirements.count_restrictLevels_mono
    (SkillLevels.count_grant_mono hp hp' hlevels hpieces) s

theorem pairedTotal_congr (hbonus : mine.stats.bonus = theirs.stats.bonus) (p : Packing) :
    x.pairedTotal set mine p = x.pairedTotal set theirs p := by
  rw [pairedTotal, pairedTotal, pairedPieces, pairedPieces, hbonus]

/-- A packing that reaches the minimum levels is found. -/
theorem exists_find_of_metBy [Reckoning R] {w : Candidate R}
    (hwithin : x.requirements.withinCutoffs (pairedPieces set w) = true) {finds : List (Find R)}
    (hfinds : x.finds set w = .ok finds) {packings : List Packing}
    (hpackings : Packing.all x.skills x.decorations w.stats.slots (x.pairedLevels set w) =
      .ok packings) {p : Packing} (hp : p ∈ packings)
    (hmet : x.requirements.metBy (x.pairedTotal set w p) = true) :
    ∃ f ∈ finds, x.find? set w p = .ok (some f) := by
  obtain ⟨packings', results, hpackings', hresults, rfl⟩ := (finds_eq_ok_iff hwithin).1 hfinds
  cases hpackings.symm.trans hpackings'
  obtain ⟨found, hfound, hrun⟩ := SuccessfulRun.exists_result hresults hp
  obtain ⟨f, rfl⟩ := Option.isSome_iff_exists.1 ((isSome_of_find? hrun).trans hmet)
  exact ⟨f, List.mem_filterMap.2 ⟨_, hfound, rfl⟩, hrun⟩

section StandsIn

variable {x : Setting Rat} {set : ArmourSet} {mine theirs : Candidate Rat} {finds : List (Find Rat)}

/-- A weapon that dominates another one does no worse with a packing that has no level fewer, unless
bludgeoner adds less to it. -/
theorem exists_find_ge (ht : x.skills.LimitsInOrder)
    (hclass : mine.weapon.weapon.weaponClass = theirs.weapon.weapon.weaponClass)
    (hdominates : mine.stats.Dominates theirs.stats)
    (hblades : mine.stats.gauge.isSome = theirs.stats.gauge.isSome)
    (hwithin : x.requirements.withinCutoffs (pairedPieces set mine) = true)
    (hmine : x.finds set mine = .ok finds) {packings : List Packing}
    (hpackings : Packing.all x.skills x.decorations mine.stats.slots (x.pairedLevels set mine) =
      .ok packings) {p : Packing} (hp : p ∈ packings)
    (hmet : x.requirements.metBy (x.pairedTotal set mine p) = true) {levels : SkillLevels}
    (hlevels : ∀ s, levels.count s ≤ (x.pairedTotal set mine p).count s)
    (hgain : Modifiers.bludgeonerGain x.skills x.requirements theirs.stats levels ≤
      Modifiers.bludgeonerGain x.skills x.requirements mine.stats (x.pairedTotal set mine p))
    {e : Effective Rat}
    (he : Effective.ofLevels x.skills x.requirements x.boost theirs.weapon.weapon.weaponClass
      theirs.stats levels = .ok e) : ∃ f ∈ finds, e.raw ≤ f.effective.raw := by
  obtain ⟨f, hf, hrun⟩ := exists_find_of_metBy hwithin hmine hpackings hp hmet
  have hlevel := Modifiers.level_le_of_count_le (r := x.requirements) ht hlevels
  have hnomore := hdominates.bringsNoMore hblades hlevel hgain
  have heffective := effective_of_find? hrun
  rw [hclass] at heffective
  exact ⟨f, hf, hnomore.raw_le he heffective⟩

/-- A build of the dominated weapon is matched by one of the weapon that stands in for it. -/
theorem exists_find_of_standsInFor (ht : x.skills.LimitsInOrder)
    (hset : set.signature.Within x.skills x.requirements)
    (hclass : mine.weapon.weapon.weaponClass = theirs.weapon.weapon.weaponClass)
    (hdominates : mine.stats.Dominates theirs.stats)
    (h : mine.stats.StandsInFor x.skills x.requirements theirs.stats) {others : List (Find Rat)}
    (hmine : x.finds set mine = .ok finds) (htheirs : x.finds set theirs = .ok others)
    {f : Find Rat} (hf : f ∈ others) : ∃ g ∈ finds, f.effective.raw ≤ g.effective.raw := by
  obtain ⟨hwithin, otherPackings, hothers, p, hp, hfind⟩ :=
    Request.exists_packing_of_finds htheirs hf
  have hwithin' := withinCutoffs_of_standsInFor hset h hwithin
  obtain ⟨packings, -, hpackings, -⟩ := (finds_eq_ok_iff hwithin').1 hmine
  obtain ⟨p', hp', hle, hpsame⟩ :=
    exists_packing_of_standsInFor hset hdominates h hpackings hothers hp
  have hcapped : p.levels.Capped x.skills.cap :=
    Packing.capped_of_mem_all (capped_pairedLevels hset.levels theirs) hothers hp
  have hcapped' : p'.levels.Capped x.skills.cap :=
    Packing.capped_of_mem_all (capped_pairedLevels hset.levels mine) hpackings hp'
  have htotal : ∀ s, (x.pairedTotal set theirs p).count s ≤ (x.pairedTotal set mine p').count s :=
    count_pairedTotal_mono hset hset le_rfl hdominates hcapped hcapped' hle
  have hsame : mine.stats.skill = theirs.stats.skill → mine.stats.bonus = theirs.stats.bonus →
      x.pairedTotal set theirs p = x.pairedTotal set mine p' := fun hskill hbonus => by
    rw [hpsame hskill, pairedTotal_congr hbonus]
  -- the minimum levels that the one build reaches are reached by the other one
  have hmet : x.requirements.metBy (x.pairedTotal set mine p') = true :=
    Requirements.metBy_mono htotal (isSome_of_find? hfind).symm
  exact exists_find_ge ht hclass hdominates h.blades hwithin' hmine hpackings hp' hmet htotal
    (h.bludgeoner _ _ (counts_pairedTotal hcapped) (counts_pairedTotal hcapped') htotal hsame)
    (effective_of_find? hfind)

end StandsIn

end Setting

namespace Request

variable {q : Request} {c : Catalogue}

theorem weaponClass_of_candidateOf {R : Type} {w : Candidate R} {stats : WeaponStats}
    (h : q.CandidateOf c w stats) : w.weapon.weapon.weaponClass = q.weaponClass := by
  have hallowed := (List.mem_filter.1 h.weapon).2
  simp only [allowsWeapon, Bool.and_eq_true, decide_eq_true_iff] at hallowed
  exact hallowed.1.1.1

/-- Every candidate is a configuration, and every configuration is dominated by a candidate. -/
theorem exists_dominating_candidate {R : Type} [Reckoning R]
    {configurations : List (ConfiguredWeapon × WeaponStats)}
    (hconfigurations : q.configurations c = .ok configurations)
    {candidates : List (Candidate R)} (hcandidates : q.candidates c = .ok candidates) :
    (∀ w ∈ candidates, (w.weapon, w.stats) ∈ configurations) ∧
      ∀ k ∈ configurations, ∃ w ∈ candidates, w.stats.dominates k.2 = true := by
  obtain ⟨configurations', rated, hconfigurations', hrated, hperm⟩ := candidates_eq_ok hcandidates
  cases hconfigurations.symm.trans hconfigurations'
  constructor
  · intro w hw
    obtain ⟨k, hk, hkept⟩ := SuccessfulRun.exists_item hrated (hperm.mem_iff.1 hw)
    rw [hkept.weapon, hkept.stats]
    exact Front.mem_of_mem_ofOffers hk
  · intro k hk
    have hcovering : ∃ m ∈ (Front.ofOffers (fun a b => a.2.dominates b.2) configurations).members,
        m.2.dominates k.2 = true := by
      apply Front.exists_covering_member _ _ hk
      · exact fun k => WeaponStats.dominates_refl k.2
      · exact fun _ _ _ => WeaponStats.dominates_trans
    obtain ⟨m, hm, hdominates⟩ := hcovering
    obtain ⟨w, hw, hkept⟩ := SuccessfulRun.exists_result hrated hm
    exact ⟨w, hperm.mem_iff.2 hw, hkept.stats ▸ hdominates⟩

theorem within_of_laysOut {R : Type} [Reckoning R] (hr : q.requirements.Coherent c.skills)
    {g : Groundwork R} (hg : q.LaysOut c g) {set : ArmourSet} (hset : set ∈ g.sets) :
    set.signature.Within c.skills q.requirements := by
  obtain ⟨x, rfl⟩ := exists_choice_of_assemble hr (.inr rfl) hg.useful hg.tables hg.sets hset
  rw [x.signature_set]
  exact x.within hg.useful

open Setting in
/-- Pairing armour sets with all configurations of a request instead of its candidates finds nothing
better, and no build where there is none, provided that every candidate stands in for what it
dominates. -/
theorem bestRaw_candidates_eq {d : CatalogueDraft} (hc : d.resolve = .ok c) {draft : RequestDraft}
    (hq : resolve c draft = .ok q) {g : Groundwork Rat} (hg : q.LaysOut c g)
    {sets : List ArmourSet} (hsets : sets ⊆ g.sets)
    {configurations : List (ConfiguredWeapon × WeaponStats)}
    (hconfigurations : q.configurations c = .ok configurations)
    (hfinds : ∀ set ∈ sets, ∀ k ∈ configurations, ∃ finds,
      (ofRequest c q g.useful).finds set (.ofConfiguration k) = .ok finds)
    (hstands : ∀ w ∈ g.candidates, ∀ k ∈ configurations, w.stats.dominates k.2 = true →
      w.stats.StandsInFor c.skills q.requirements k.2) :
    bestRaw (ofRequest c q g.useful) sets g.candidates =
      bestRaw (ofRequest c q g.useful) sets (configurations.map .ofConfiguration) := by
  obtain ⟨hkept, hcovered⟩ := exists_dominating_candidate hconfigurations hg.candidates
  have hclass : ∀ k ∈ configurations, k.1.weapon.weaponClass = q.weaponClass := fun k hk => by
    obtain ⟨stats, hcandidate⟩ := exists_candidateOf_of_mem_configurations hconfigurations hk ()
    exact weaponClass_of_candidateOf hcandidate
  apply bestRaw_eq_of_matched
  · intro set _ w hw
    refine ⟨_, List.mem_map_of_mem (hkept w hw), ?_⟩
    rw [builds, builds, finds_ofConfiguration]
  · intro set hset k' hk' f hf
    obtain ⟨k, hk, rfl⟩ := List.mem_map.1 hk'
    obtain ⟨w, hw, hdominates⟩ := hcovered k hk
    obtain ⟨finds, hmine⟩ := hfinds set hset _ (hkept w hw)
    rw [finds_ofConfiguration] at hmine
    obtain ⟨others, htheirs⟩ := hfinds set hset k hk
    rw [builds_of_finds htheirs] at hf
    have hsame : w.weapon.weapon.weaponClass =
        (Candidate.ofConfiguration k).weapon.weapon.weaponClass :=
      (hclass _ (hkept w hw)).trans (hclass k hk).symm
    obtain ⟨f', hf', hle⟩ := exists_find_of_standsInFor
      (CatalogueDraft.limitsInOrder_of_resolve hc)
      (within_of_laysOut (coherent_of_resolve hq) hg (hsets hset)) hsame
      (WeaponStats.dominates_iff.1 hdominates) (hstands w hw k hk hdominates) hmine htheirs hf
    have hbuilds : (ofRequest c q g.useful).builds set w = finds := builds_of_finds hmine
    exact ⟨w, hw, f', hbuilds ▸ hf', hle⟩

/-- A bow without slots and another one, and a jewel of the second size. -/
def twoBowsDraft (raw : Nat) (slots : List Nat) : CatalogueDraft where
  skills := ⟨.ofList [("CRITICAL_BOOST", ⟨"Critical Boost", 3, none, none, none⟩)], ∅⟩
  decorations := [⟨"CRITICAL_JEWEL", "Critical Jewel", 2, .ofList [("CRITICAL_BOOST", 1)]⟩]
  armour := [⟨"Hunter", .low, none, .ofList (Slot.all.map fun slot => (slot, ⟨∅, []⟩))⟩]
  charms := []
  weapons := [("PLAIN", 100, []), ("OTHER", raw, slots)].map fun (id, trueRaw, slots) =>
    { id, name := id, weaponClass := .bow, rarity := 1, trueRaw, affinity := 0
      skill := none, slots, element := {}, gauge := none, constantSharpness := false
      augments := .none, upgrades := .none }
  buffs := []

def twoBowsRequest : RequestDraft where
  allowLow := true
  allowHigh := false
  allowMaster := false
  healthRegenRequired := false
  weaponClass := .bow
  allowElement := []
  damageModel := ⟨100, fun _ => none, 100, fun _ => 0⟩
  requirements := ⟨.ofList [("CRITICAL_BOOST", 0)], ∅, [], ∅⟩
  buffs := []

/-- Whether every pairing of a groundwork with the configurations ends without a fault. -/
def Faultless (c : Catalogue) (q : Request) (g : Groundwork Rat)
    (configurations : List (ConfiguredWeapon × WeaponStats)) : Prop :=
  ∀ set ∈ g.sets, ∀ k ∈ configurations,
    ((Setting.ofRequest c q g.useful).finds set (.ofConfiguration k)).toOption.isSome = true

instance (c : Catalogue) (q : Request) (g : Groundwork Rat)
    (configurations : List (ConfiguredWeapon × WeaponStats)) :
    Decidable (Faultless c q g configurations) :=
  inferInstanceAs (Decidable (∀ set ∈ g.sets, ∀ k ∈ configurations, _))

theorem Faultless.finds {g : Groundwork Rat}
    {configurations : List (ConfiguredWeapon × WeaponStats)} (h : Faultless c q g configurations) :
    ∀ set ∈ g.sets, ∀ k ∈ configurations, ∃ finds,
      (Setting.ofRequest c q g.useful).finds set (.ofConfiguration k) = .ok finds := by
  intro set hset k hk
  obtain ⟨finds, hfinds⟩ := Option.isSome_iff_exists.1 (h set hset k hk)
  exact ⟨finds, SuccessfulRun.toOption_eq_some_iff.1 hfinds⟩

/-- A weaker bow without slots is not missed. -/
theorem bestRaw_candidates_eq_twoBows :
    ∃ c q g configurations, (twoBowsDraft 90 []).resolve = .ok c ∧
      resolve c twoBowsRequest = .ok q ∧ q.LaysOut c g ∧
      q.configurations c = .ok configurations ∧
      (configurations.length, g.candidates.length) = (2, 1) ∧
      (Setting.ofRequest c q g.useful).bestRaw g.sets g.candidates =
        (Setting.ofRequest c q g.useful).bestRaw g.sets
          (configurations.map .ofConfiguration) := by
  have hrun : (fromGroundwork (twoBowsDraft 90 []) twoBowsRequest fun c q g =>
      (q.configurations c).toOption.bind fun configurations =>
        if Faultless c q g configurations ∧ ∀ w ∈ g.candidates, ∀ k ∈ configurations,
            w.stats.RangedAlike k.2 then
          some (configurations.length, g.candidates.length) else none) = some (2, 1) := by
    decide +kernel
  obtain ⟨c, q, g, hc, hq, hlaid, hrun⟩ := exists_of_fromGroundwork hrun
  obtain ⟨configurations, hconfigurations, hrun⟩ := Option.bind_eq_some_iff.1 hrun
  obtain ⟨⟨hfaultless, halike⟩, hlengths⟩ := Option.ite_none_right_eq_some.1 hrun
  have hconfigurations := SuccessfulRun.toOption_eq_some_iff.1 hconfigurations
  have hbest := bestRaw_candidates_eq hc hq hlaid (List.Subset.refl _) hconfigurations
    hfaultless.finds fun w hw k hk _ => (halike w hw k hk).standsInFor c.skills q.requirements
  exact ⟨c, q, g, configurations, hc, hq, hlaid, hconfigurations, Option.some.inj hlengths, hbest⟩

/-- No jewel fits into the slot of the second bow, so the bow is never paired, but it drives out the
first one, which needs no jewel. -/
theorem bestRaw_lost_to_slot :
    ¬ ∀ (d : CatalogueDraft) (c : Catalogue) (draft : RequestDraft) (q : Request)
        (g : Groundwork Rat) (sets : List ArmourSet)
        (configurations : List (ConfiguredWeapon × WeaponStats)),
      d.resolve = .ok c → resolve c draft = .ok q → q.LaysOut c g → sets ⊆ g.sets →
      q.configurations c = .ok configurations →
      (∀ set ∈ sets, ∀ k ∈ configurations, ∃ finds,
        (Setting.ofRequest c q g.useful).finds set (.ofConfiguration k) = .ok finds) →
      (Setting.ofRequest c q g.useful).bestRaw sets g.candidates =
        (Setting.ofRequest c q g.useful).bestRaw sets
          (configurations.map .ofConfiguration) := by
  intro hall
  have hrun : (fromGroundwork (twoBowsDraft 100 [1]) twoBowsRequest fun c q g =>
      (q.configurations c).toOption.bind fun configurations =>
        if Faultless c q g configurations then
          some ((Setting.ofRequest c q g.useful).bestRaw g.sets g.candidates,
            (Setting.ofRequest c q g.useful).bestRaw g.sets
              (configurations.map .ofConfiguration)) else none) =
      some (none, some 100) := by
    decide +kernel
  obtain ⟨c, q, g, hc, hq, hlaid, hrun⟩ := exists_of_fromGroundwork hrun
  obtain ⟨configurations, hconfigurations, hrun⟩ := Option.bind_eq_some_iff.1 hrun
  obtain ⟨hfaultless, hbest⟩ := Option.ite_none_right_eq_some.1 hrun
  obtain ⟨hkept, hunpruned⟩ := Prod.mk.inj (Option.some.inj hbest)
  have hsame := hall (twoBowsDraft 100 [1]) c twoBowsRequest q g g.sets configurations
    hc hq hlaid (List.Subset.refl _)
    (SuccessfulRun.toOption_eq_some_iff.1 hconfigurations) hfaultless.finds
  rw [hkept, hunpruned] at hsame
  cases hsame

end Request

end Loadout
