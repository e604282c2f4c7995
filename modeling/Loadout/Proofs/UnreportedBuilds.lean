import Loadout.Proofs.AgreeingSearches
import Loadout.Proofs.CutoffSets
import Loadout.Proofs.EmptySearches
import Loadout.Proofs.LegalBuilds

/-!
# Builds that are not reported

A search that holds nothing in the end has turned every pairing of its armour sets with its
candidates down.  That rules a build out as soon as one pairing stands above it: a set that grants
at least what the armour of the build grants, and a candidate that dominates its weapon, within the
cutoffs and with a packing that holds the decorations of its weapon.  Assembly keeps a set above
every safe choice and pruning a candidate above every weapon, but the two need not have a packing:
no slot is ever left open, and a skill that a larger set has in full leaves decorations without use.
So not every build is ruled out.
-/

namespace Loadout

section Gear

variable {c : Catalogue} {r : Requirements} {o : Outfit} {decorations : List DecorationId}

/-- What is relevant of an outfit with decorations in it. -/
def Requirements.gearSignature (r : Requirements) (c : Catalogue) (o : Outfit)
    (decorations : List DecorationId) : Signature :=
  ⟨r.restrictLevels (SkillLevels.merge c.skills (o.levels c) (c.decorationLevels decorations)),
    r.restrictPieces (o.setPieces c)⟩

theorem Requirements.gearSignature_eq : r.gearSignature c o decorations =
    .ofGrants c.skills r (o.grants c ++ c.decorationGrants decorations)
      ((o.pieces.filterMap fun p => (c.piece p).bonus).map (·, 1)) := by
  rw [gearSignature, Catalogue.wornLevels_eq, Outfit.setPieces, SetPieces.ofCounts_eq_collect,
    restrictLevels, restrictPieces, Tally.keep_collect, Tally.keep_collect, Signature.ofGrants]

theorem Requirements.count_levels_gearSignature {s : SkillId} (hs : r.relevant s = true) :
    (r.gearSignature c o decorations).levels.count s =
      min (Tally.unitsOf (o.grants c) s + Tally.unitsOf (c.decorationGrants decorations) s)
        (c.skills.cap s) := by
  rw [gearSignature_eq, Signature.ofGrants, Tally.count_collect, Tally.unitsOf_filter, if_pos hs,
    Tally.unitsOf_append]

theorem Catalogue.unitsOf_decorationGrants_le {few many : List DecorationId}
    (h : few.Subperm many) (s : SkillId) :
    Tally.unitsOf (c.decorationGrants few) s ≤ Tally.unitsOf (c.decorationGrants many) s := by
  obtain ⟨front, hfront, hsub⟩ := h
  rw [decorationGrants, decorationGrants, Tally.unitsOf_flatMap, Tally.unitsOf_flatMap]
  calc (few.map fun d => Tally.unitsOf (c.decoration d).skills s).sum
      = (front.map fun d => Tally.unitsOf (c.decoration d).skills s).sum :=
        (hfront.map _).sum_eq.symm
    _ ≤ (many.map fun d => Tally.unitsOf (c.decoration d).skills s).sum :=
        (hsub.map _).sum_le_sum (by simp)

theorem Requirements.Coherent.count_unlocked {t : SkillTable} (hr : r.Coherent t)
    (pieces : SetPieces) {s : SkillId} (hs : r.relevant s = true) :
    ((r.restrictPieces pieces).unlocked t).count s = (pieces.unlocked t).count s := by
  rw [← List.count_filter hs, hr.filter_unlocked, List.count_filter hs]

end Gear

namespace Setting

variable {R : Type} {x : Setting R} {set : ArmourSet} {w : Candidate R}

/-- The packings of a weapon's slots on top of a set; none if there is a fault. -/
def packings (x : Setting R) (set : ArmourSet) (w : Candidate R) : List Packing :=
  match Packing.all x.skills x.decorations w.stats.slots (x.pairedLevels set w) with
  | .ok packings => packings
  | .error _ => []

theorem mem_packings {p : Packing} : p ∈ x.packings set w ↔
    ∃ packings, Packing.all x.skills x.decorations w.stats.slots (x.pairedLevels set w) =
      .ok packings ∧ p ∈ packings := by
  unfold packings
  split
  next packings h => simp [h]
  next f h => simp [h]

end Setting

namespace Request

section Above

open Setting

/-- A kept skill or set bonus counts for as much in a weapon that matches what is kept. -/
theorem ite_le_of_matches {κ : Type} [DecidableEq κ] {keep : κ → Bool} {mine theirs : Option κ}
    (h : theirs.filter keep = none ∨ mine = theirs.filter keep) {k : κ} (hk : keep k = true) :
    (if theirs = some k then 1 else 0) ≤ if mine = some k then 1 else 0 := by
  by_cases htheirs : theirs = some k
  · have hkept : theirs.filter keep = some k := by
      rw [htheirs, Option.filter_some, if_pos hk]
    rcases h with hnone | hsame
    · rw [hkept] at hnone
      cases hnone
    · rw [if_pos (hsame.trans hkept)]
      split <;> omega
  · rw [if_neg htheirs]
    exact Nat.zero_le _

variable {R : Type} [Reckoning R] {q : Request} {c : Catalogue} {useful : List UsefulDecoration}
variable {set : ArmourSet} {k w : Candidate R} {stats : WeaponStats} {outfit : Outfit}
variable {fitted decorations : List DecorationId} {p : Packing}

section Counts

variable (hset : set.signature.Within c.skills q.requirements)
variable (hcounted : k.stats = q.requirements.restrictStats stats)
variable (hdominates : w.stats.Dominates k.stats)
variable (hle : q.requirements.gearSignature c outfit fitted ≤ set.signature)
include hset hcounted hdominates hle

omit [Reckoning R] in
theorem count_gearPieces_le (b : BonusId) :
    (q.requirements.restrictPieces (c.gearPieces stats outfit)).count b ≤
      (pairedPieces set w).count b := by
  rw [hcounted] at hdominates
  rw [Requirements.restrictPieces, Tally.count_keep]
  split
  next hb =>
    have hworn : (q.requirements.gearSignature c outfit fitted).pieces.count b ≤
        set.signature.pieces.count b := hle (.bonus b)
    have hbonus : (if stats.bonus = some b then 1 else 0) ≤
        if w.stats.bonus = some b then 1 else 0 :=
      ite_le_of_matches hdominates.bonus hb
    rw [Requirements.gearSignature_eq, Signature.ofGrants, Tally.count_collect,
      Tally.unitsOf_filter, if_pos hb] at hworn
    rw [count_pairedPieces hset.pieces, Catalogue.gearPieces_eq, Tally.count_collect,
      Tally.unitsOf_append, Tally.unitsOf_toList_map_one]
    omega
  next => exact Nat.zero_le _

variable (hc : c.FitsHandles) (huseful : c.decorationsFor q.requirements = .ok useful)
variable (hp : p ∈ (ofRequest c q useful : Setting R).packings set w)
variable (hdecorations : decorations.Subperm p.decorations)
include hc huseful hp hdecorations

/-- Before set bonuses, a pairing has at least the relevant levels of gear that it stands above. -/
theorem unitsOf_gearGrants_le {s : SkillId} (hs : q.requirements.relevant s = true) :
    min (Tally.unitsOf (c.gearGrants stats outfit (fitted ++ decorations)) s) (c.skills.cap s) ≤
      p.levels.count s := by
  rw [hcounted] at hdominates
  obtain ⟨packings, hpackings, hp⟩ := mem_packings.1 hp
  obtain ⟨chosen, hchosen, hfilled⟩ := Packing.exists_filledBy hpackings hp
  have hpaired : ((ofRequest c q useful : Setting R).pairedLevels set w).count s =
      min (set.signature.levels.count s + if w.stats.skill = some s then 1 else 0)
        (c.skills.cap s) := count_pairedLevels hset.levels w s
  have hworn : (q.requirements.gearSignature c outfit fitted).levels.count s ≤
      set.signature.levels.count s := hle (.skill s)
  have hskill : (if stats.skill = some s then 1 else 0) ≤
      if w.stats.skill = some s then 1 else 0 :=
    ite_le_of_matches hdominates.skill hs
  have hfewer := Catalogue.unitsOf_decorationGrants_le (c := c) hdecorations s
  have hgranted : Tally.unitsOf (chosen.flatMap (·.levels)) s =
      Tally.unitsOf (c.decorationGrants p.decorations) s := by
    have hfilter := congrArg (Tally.unitsOf · s) (filter_levels_eq_filter_grants hc huseful hchosen)
    simp only [Tally.unitsOf_filter, if_pos hs] at hfilter
    rw [hfilled.decorations, hfilter]
  have hpacked : p.levels.count s =
      min (((ofRequest c q useful : Setting R).pairedLevels set w).count s +
        Tally.unitsOf (chosen.flatMap (·.levels)) s) (c.skills.cap s) := by
    rw [hfilled.levels, SkillLevels.gainAll_eq_raiseAll]
    exact (capped_pairedLevels hset.levels w).count_raiseAll _ s
  rw [Requirements.count_levels_gearSignature hs] at hworn
  rw [hpacked, hgranted, hpaired, Catalogue.gearGrants, Catalogue.decorationGrants_append,
    Tally.unitsOf_append, Tally.unitsOf_append, Tally.unitsOf_append, Tally.unitsOf_toList_map_one]
  omega

/-- A pairing has at least the relevant levels of gear that it stands above. -/
theorem count_gearLevels_le (hr : q.requirements.Coherent c.skills) (s : SkillId) :
    (q.requirements.restrictLevels
        (c.gearLevels stats outfit (fitted ++ decorations))).count s ≤
      ((ofRequest c q useful).pairedTotal set w p).count s := by
  rw [pairedTotal, Requirements.restrictLevels, Requirements.restrictLevels, Tally.count_keep,
    Tally.count_keep]
  change (if q.requirements.relevant s = true then _ else 0) ≤
    if q.requirements.relevant s = true then _ else 0
  split
  next hs =>
    obtain ⟨packings, hpackings, hmem⟩ := mem_packings.1 hp
    have hcapped : p.levels.Capped c.skills.cap :=
      Packing.capped_of_mem_all (capped_pairedLevels hset.levels w) hpackings hmem
    have hgrants := unitsOf_gearGrants_le hset hcounted hdominates hle hc huseful hp hdecorations hs
    have hpieces := SetPieces.count_unlocked_mono c.skills
      (count_gearPieces_le hset hcounted hdominates hle) s
    rw [hr.count_unlocked _ hs] at hpieces
    change _ ≤ (SkillLevels.grant c.skills p.levels (pairedPieces set w)).count s
    rw [Catalogue.gearLevels_eq, Tally.count_collect, Tally.unitsOf_append, Tally.unitsOf_map_one,
      SkillLevels.grant, SkillLevels.gainAll_eq_raiseAll, hcapped.count_raiseAll,
      Tally.unitsOf_map_one]
    omega
  next => exact Nat.zero_le _

end Counts

end Above

variable {R : Type} [Reckoning R] {q : Request} {c : Catalogue} {g : Groundwork R}

/-- The floor of a search in batches holds nothing back unless buffs take more than half of all raw
attack away. -/
theorem LaysOut.clears {d : CatalogueDraft} (hd : d.resolve = .ok c) {g : Groundwork Rat}
    (hg : q.LaysOut c g) (hfactor : (1 / 2 : Rat) ≤ q.consumables.boost.factor) :
    (Setting.ofRequest c q g.useful).Clears (some Setting.sharedFloor) g.sets g.candidates := by
  constructor
  · intro w hw
    obtain ⟨stats, hcandidate⟩ := exists_candidateOf_of_mem_candidates hg.candidates hw
    obtain ⟨tried, e, he, hle, -⟩ := Candidate.exists_tried_levels
      (CatalogueDraft.limitsInOrder_of_resolve hd) (ceilingOf_of_mem_candidates hg.candidates hw)
      fun s _ => Tally.count_empty s
    have hpos := Effective.raw_pos he (hcandidate.raw_pos hd) hfactor
    exact Reckoning.less_iff.2 (hpos.trans_le hle)
  · intro set hset w hw finds hfinds f hf
    have hmem : f ∈ (Setting.ofRequest c q g.useful).allBuilds g.sets g.candidates :=
      Setting.mem_allBuilds.2 ⟨set, hset, w, hw, (Setting.builds_of_finds hfinds).symm ▸ hf⟩
    exact Reckoning.less_iff.2 (raw_pos_of_mem_allBuilds hd hfactor hg hmem)

/-- Assembly keeps a set above a safe choice, and pruning a candidate above a weapon. -/
theorem LaysOut.exists_pairing_above (hg : q.LaysOut c g) (hc : c.FitsHandles)
    (hr : q.requirements.Coherent c.skills) {x : Choice q c g.useful Slot.all} (hsafe : x.Safe)
    {k : Candidate R} {stats : WeaponStats} (hk : q.CandidateOf c k stats) :
    ∃ s ∈ g.sets, ∃ w ∈ g.candidates,
      q.requirements.gearSignature c x.set.outfit x.set.decorations ≤ s.signature ∧
        w.stats.dominates k.stats = true := by
  have hsignature : q.requirements.gearSignature c x.set.outfit x.set.decorations =
      x.signature := by
    rw [Requirements.gearSignature_eq, x.signature_eq hc hg.useful, x.pieces_eq hc hg.useful,
      Signature.ofGrants_perm (x.grants_perm hc hg.useful)]
  obtain ⟨s, hs, hle⟩ := hg.exists_set_ge_of_safe hr hsafe
  obtain ⟨configurations, -, hconfigurations, -⟩ := candidates_eq_ok hg.candidates
  obtain ⟨w, hw, hdominates⟩ :=
    (exists_dominating_candidate hconfigurations hg.candidates).2 (k.weapon, k.stats)
      (mem_configurations_of_candidateOf hconfigurations hk)
  exact ⟨s, hs, w, hw, hsignature ▸ hle, hdominates⟩

variable {draft : RequestDraft} {o : SearchOptions} {held : Held R}

open Setting in
/-- If a search holds nothing in the end, gear misses a minimum level as soon as one pairing stands
above it: an armour set that grants at least what the outfit and the decorations in it grant, and a
candidate that dominates the weapon, within the cutoffs and with a packing that holds the other
decorations.  Above a safe choice with any weapon there are such a set and such a candidate, but
they need not have a packing. -/
theorem misses_minimum_of_none (hc : c.FitsHandles) (hq : resolve c draft = .ok q)
    (hg : q.LaysOut c g) (hend : (ofRequest c q g.useful).MayEnd o g.candidates g.sets held)
    (hnone : held.best = none)
    (hclear : o.parallel = true →
      (ofRequest c q g.useful).Clears (some sharedFloor) g.sets g.candidates)
    {k : Candidate R} {stats : WeaponStats} (hk : q.CandidateOf c k stats) :
    (∀ x : Choice q c g.useful Slot.all, x.Safe → ∃ s ∈ g.sets, ∃ w ∈ g.candidates,
        q.requirements.gearSignature c x.set.outfit x.set.decorations ≤ s.signature ∧
          w.stats.dominates k.stats = true) ∧
      ∀ s ∈ g.sets, ∀ w ∈ g.candidates, w.stats.dominates k.stats = true →
        q.requirements.withinCutoffs (pairedPieces s w) = true →
        ∀ p ∈ (ofRequest c q g.useful).packings s w,
        ∀ (outfit : Outfit) (fitted decorations : List DecorationId),
          q.requirements.gearSignature c outfit fitted ≤ s.signature →
          decorations.Subperm p.decorations →
          q.requirements.metBy (c.gearLevels stats outfit (fitted ++ decorations)) = false := by
  have hr := coherent_of_resolve hq
  refine ⟨fun x hsafe => hg.exists_pairing_above hc hr hsafe hk, ?_⟩
  intro s hs w hw hdominates hwithin p hp outfit fitted decorations hle hdecorations
  -- the packing was turned down, and only its levels can have been the reason
  have hvain := finds_eq_nil_of_mayEnd hend hnone hclear s hs w hw
  have hfails := (finds_eq_nil_iff hvain).1 rfl p
  have hmore := count_gearLevels_le (within_of_laysOut hr hg hs) hk.counted
    (WeaponStats.dominates_iff.1 hdominates) hle hc hg.useful hp hdecorations hr
  refine Bool.eq_false_iff.2 fun hmet => hfails ⟨hwithin, mem_packings.1 hp, ?_⟩
  rw [← Requirements.metBy_restrictLevels] at hmet
  exact Requirements.metBy_mono hmore hmet

/-- A request that asks for more levels than there are. -/
def unreachableRequest : RequestDraft :=
  { archerRequest with
    requirements := ⟨.ofList [("ATTACK_BOOST", 7), ("CRITICAL_EYE", 0)], ∅, [], ∅⟩ }

open Setting in
/-- The last allowed pieces with a jewel in the bow miss the asked level, as a crew has found. -/
theorem misses_minimum_of_none_archer :
    ∃ c q stats decorations, ∃ g : Groundwork Rat, ∃ held : Held Rat, ∃ k : Candidate Rat,
      ∃ x : Choice q c g.useful Slot.all,
      archerDraft.resolve = .ok c ∧ c.FitsHandles ∧ resolve c unreachableRequest = .ok q ∧
      q.LaysOut c g ∧ (ofRequest c q g.useful).MayEnd ⟨true, 3⟩ g.candidates g.sets held ∧
      held.best = none ∧ q.CandidateOf c k stats ∧ decorations.length = 1 ∧
      q.requirements.metBy
        (c.gearLevels stats x.set.outfit (x.set.decorations ++ decorations)) = false := by
  have hrun : (fromGroundwork archerDraft unreachableRequest fun c q (g : Groundwork Rat) =>
      (Slot.all.mapM (q.lastEntry c g.useful)).toOption.bind fun _ =>
      g.candidates.head?.bind fun _ =>
      (sweep (ofRequest c q g.useful) ⟨true, 3⟩ g.candidates g.sets).toOption.bind fun held =>
        if c.FitsHandles ∧ q.requirements.cutoffs.entries = [] ∧
            (1 / 2 : Rat) ≤ q.consumables.boost.factor ∧
            ∀ s ∈ g.sets, ∀ w ∈ g.candidates,
              g.useful.map (·.id) ∈ ((ofRequest c q g.useful).packings s w).map (·.decorations) then
          some (held.best.isNone, g.useful.length) else none) = some (true, 1) := by
    decide +kernel
  obtain ⟨c, q, g, hc, hq, hlaid, hrun⟩ := exists_of_fromGroundwork hrun
  obtain ⟨entries, hentries, hrun⟩ := Option.bind_eq_some_iff.1 hrun
  obtain ⟨k, hk, hrun⟩ := Option.bind_eq_some_iff.1 hrun
  obtain ⟨held, hheld, hrun⟩ := Option.bind_eq_some_iff.1 hrun
  obtain ⟨⟨hfits, hfree, hfactor, hpacked⟩, hrun⟩ := Option.ite_none_right_eq_some.1 hrun
  obtain ⟨hnone, hlength⟩ := Prod.mk.inj (Option.some.inj hrun)
  have hnone := Option.isNone_iff_eq_none.1 hnone
  let x := lastChoice (SuccessfulRun.toOption_eq_some_iff.1 hentries)
  have hend := mayEnd_of_sweep (SuccessfulRun.toOption_eq_some_iff.1 hheld)
  obtain ⟨stats, hcandidate⟩ :=
    exists_candidateOf_of_mem_candidates hlaid.candidates (List.mem_of_mem_head? hk)
  have hwithin : ∀ pieces, q.requirements.withinCutoffs pieces = true := fun pieces => by
    rw [Requirements.withinCutoffs, hfree]
    rfl
  obtain ⟨habove, hmisses⟩ := misses_minimum_of_none hfits hq hlaid hend hnone
    (fun _ => hlaid.clears hc hfactor) hcandidate
  obtain ⟨s, hs, w, hw, hle, hdominates⟩ := habove x fun y _ => hwithin _
  obtain ⟨p, hp, hdecorations⟩ := List.mem_map.1 (hpacked s hs w hw)
  exact ⟨c, q, stats, p.decorations, g, held, k, x, hc, hfits, hq, hlaid, hend, hnone, hcandidate,
    by rw [hdecorations, List.length_map, hlength],
    hmisses s hs w hw hdominates (hwithin _) p hp x.set.outfit x.set.decorations p.decorations hle
      (List.Subperm.refl _)⟩

/-- A head piece with a slot that the only jewel does not fit, and spare pieces. -/
def openSlotDraft (spare : List ArmourSetDraft) : CatalogueDraft where
  skills := ⟨.ofList [("ATTACK_BOOST", ⟨"Attack Boost", 7, none, none, none⟩)], ∅⟩
  decorations := [⟨"ATTACK_JEWEL", "Attack Jewel", 2, .ofList [("ATTACK_BOOST", 1)]⟩]
  armour := ⟨"Hunter", .low, none, .ofList [(.head, ⟨.ofList [("ATTACK_BOOST", 1)], [1]⟩),
    (.chest, ⟨∅, []⟩), (.arms, ⟨∅, []⟩), (.waist, ⟨∅, []⟩), (.legs, ⟨∅, []⟩)]⟩ :: spare
  charms := []
  weapons := [{
    id := "BOW", name := "Bow", weaponClass := .bow, rarity := 1, trueRaw := 100, affinity := 0
    skill := none, slots := [], element := {}, gauge := none, constantSharpness := false
    augments := .none, upgrades := .none }]
  buffs := []

def openSlotRequest (level : Nat) : RequestDraft :=
  { archerRequest with requirements := ⟨.ofList [("ATTACK_BOOST", level)], ∅, [], ∅⟩ }

/-- The first allowed piece for every slot, and no charm. -/
def firstOutfit (q : Request) (c : Catalogue) : Outfit where
  worn := .ofList (Slot.all.filterMap fun slot =>
    (q.allowedPieces c slot).head?.map fun p => (slot, p.1))
  charm := none

open Setting in
/-- Worn with an open slot, the head piece meets the request, but a search leaves no slot open and
holds nothing. -/
theorem none_misses_open_slot :
    ¬ ∀ (d : CatalogueDraft) (c : Catalogue) (draft : RequestDraft) (q : Request)
        (g : Groundwork Rat) (o : SearchOptions) (held : Held Rat),
      d.resolve = .ok c → c.FitsHandles → resolve c draft = .ok q → q.LaysOut c g →
      (ofRequest c q g.useful).MayEnd o g.candidates g.sets held → held.best = none →
      ∀ (outfit : Outfit) (k : Candidate Rat) (stats : WeaponStats)
        (decorations : List DecorationId),
        q.Wears c outfit → q.CandidateOf c k stats →
        c.decorationsFit outfit stats decorations = true →
        (∀ j ∈ decorations, (j, c.decoration j) ∈ c.allDecorations ∧
          ∀ l ∈ (c.decoration j).skills, q.requirements.removes l.1 = false) →
        ¬ (q.requirements.metBy (c.gearLevels stats outfit decorations) = true ∧
          q.requirements.withinCutoffs (c.gearPieces stats outfit) = true) := by
  intro hall
  have hrun : (fromGroundwork (openSlotDraft []) (openSlotRequest 1) fun c q (g : Groundwork Rat) =>
      ((ofRequest c q g.useful).searchInOrder g.candidates g.sets).toOption.bind fun held =>
      g.candidates.head?.bind fun k => k.weapon.stats.toOption.bind fun stats =>
        if c.FitsHandles ∧ q.Wears c (firstOutfit q c) then
          some (held.best.isNone, q.requirements.metBy (c.gearLevels stats (firstOutfit q c) []),
            q.requirements.withinCutoffs (c.gearPieces stats (firstOutfit q c)))
        else none) = some (true, true, true) := by
    decide +kernel
  obtain ⟨c, q, g, hc, hq, hlaid, hrun⟩ := exists_of_fromGroundwork hrun
  obtain ⟨held, hheld, hrun⟩ := Option.bind_eq_some_iff.1 hrun
  obtain ⟨k, hk, hrun⟩ := Option.bind_eq_some_iff.1 hrun
  obtain ⟨stats, hstats, hrun⟩ := Option.bind_eq_some_iff.1 hrun
  obtain ⟨⟨hfits, hwears⟩, hrun⟩ := Option.ite_none_right_eq_some.1 hrun
  obtain ⟨hnone, hmet⟩ := Prod.mk.inj (Option.some.inj hrun)
  obtain ⟨hmet, hwithin⟩ := Prod.mk.inj hmet
  obtain ⟨own, hcandidate⟩ :=
    exists_candidateOf_of_mem_candidates hlaid.candidates (List.mem_of_mem_head? hk)
  cases hcandidate.own.symm.trans (SuccessfulRun.toOption_eq_some_iff.1 hstats)
  have hempty : c.decorationsFit (firstOutfit q c) stats [] = true := by
    simp [Catalogue.decorationsFit, Catalogue.sizesFit, descending]
  exact hall (openSlotDraft []) c (openSlotRequest 1) q g {} held hc hfits hq hlaid
    (.inOrder rfl (SuccessfulRun.toOption_eq_some_iff.1 hheld))
    (Option.isNone_iff_eq_none.1 hnone) (firstOutfit q c) k stats [] hwears hcandidate hempty
    (List.forall_mem_nil _) ⟨hmet, hwithin⟩

end Request

end Loadout
