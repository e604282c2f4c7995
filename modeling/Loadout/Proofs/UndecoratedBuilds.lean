import Loadout.Proofs.Recomputation
import Loadout.Proofs.UnreportedBuilds

/-!
# Undecorated builds

Decorations only add levels.  So where every skill with an effect counts and no level is asked for,
gear without decorations does no better than a pairing that stands above it, and that does no better
than what a search holds in the end.  There are a larger set for every outfit whose pieces can be
packed, and a candidate that dominates the weapon, but the candidate must be packed on top of the
set to be paired with it.  Gear with a slot that cannot be filled is never paired, and can do better.
-/

namespace Loadout

theorem Requirements.metBy_of_minimum_zero {r : Requirements}
    (hzero : ∀ e ∈ r.minimum.entries, e.2 = 0) (levels : SkillLevels) : r.metBy levels = true :=
  List.all_eq_true.2 fun e he => decide_eq_true (hzero e he ▸ Nat.zero_le _)

theorem Requirements.gearSignature_nil_le (r : Requirements) (c : Catalogue) (o : Outfit)
    (decorations : List DecorationId) :
    r.gearSignature c o [] ≤ r.gearSignature c o decorations := by
  have hnil : c.decorationGrants [] = [] := rfl
  rw [gearSignature_eq, gearSignature_eq, hnil, List.append_nil]
  exact Signature.ofGrants_le_append _ _ _

theorem Outfit.ext_entries {a b : Outfit} (hworn : a.worn.entries = b.worn.entries)
    (hcharm : a.charm = b.charm) : a = b := by
  obtain ⟨⟨entries, _⟩, charm⟩ := a
  obtain ⟨⟨entries', _⟩, charm'⟩ := b
  cases hworn
  cases hcharm
  rfl

namespace Request

section Worn

variable {q : Request} {c : Catalogue} {useful : List UsefulDecoration}

/-- Whether a piece can be worn with all its slots packed. -/
def packsPiece (q : Request) (c : Catalogue) (useful : List UsefulDecoration) (p : PieceId) :
    Bool :=
  match q.slotEntries c useful p with
  | .ok entries => !entries.isEmpty
  | .error _ => false

theorem exists_slotChoice_of_packsPiece {slot : Slot} {p : PieceId}
    (hallowed : (p, c.piece p) ∈ q.allowedPieces c slot)
    (hpacks : q.packsPiece c useful p = true) :
    ∃ e, q.SlotChoice c useful slot e ∧ e.piece = p := by
  unfold packsPiece at hpacks
  split at hpacks
  next entries hentries =>
    obtain ⟨e, he⟩ := List.exists_mem_of_ne_nil entries (by simpa using hpacks)
    obtain ⟨packings, -, hmap⟩ := SuccessfulRun.bind_eq_ok_iff.1 hentries
    have hpiece : e.piece = p := by
      cases hmap
      obtain ⟨packing, -, rfl⟩ := List.mem_map.1 he
      rfl
    exact ⟨e, ⟨_, hallowed, entries, hentries, he⟩, hpiece⟩
  next => cases hpacks

/-- An outfit whose pieces can all be packed is that of a choice. -/
theorem exists_choice_of_wears (hc : c.FitsHandles)
    (huseful : c.decorationsFor q.requirements = .ok useful) {o : Outfit} (ho : q.Wears c o)
    (hpacks : ∀ p ∈ o.pieces, q.packsPiece c useful p = true) :
    ∃ x : Choice q c useful Slot.all, x.set.outfit = o := by
  obtain ⟨seed, hseed, hcharm⟩ : ∃ seed ∈ q.seedChoices c, seed.charm = o.charm := by
    cases hnone : o.charm with
    | none => exact ⟨⟨none, ∅⟩, List.mem_cons_self, rfl⟩
    | some charm =>
        obtain ⟨hlisted, hkeeps⟩ := ho.charm charm hnone
        have hmem : (charm, c.charm charm) ∈
            c.allCharms.filter fun h => !h.2.skills.any q.requirements.removes :=
          List.mem_filter.2 ⟨hlisted, by simpa using hkeeps⟩
        exact ⟨_, List.mem_cons_of_mem _ (List.mem_map_of_mem hmem), rfl⟩
  have hworn : ∀ w ∈ o.worn.entries, ∃ e, q.SlotChoice c useful w.1 e ∧ e.piece = w.2 := by
    intro w hw
    exact exists_slotChoice_of_packsPiece (ho.pieces w hw) (hpacks w.2 (List.mem_map_of_mem hw))
  obtain ⟨entries, hentries⟩ := SuccessfulRun.exists_results hworn
  have hallowed : List.Forall₂ (q.SlotChoice c useful) Slot.all entries := by
    rw [← ho.slots, OrderedMap.keys, List.forall₂_map_left_iff]
    exact hentries.imp fun _ _ h => h.1
  have hpieces : entries.map (·.piece) = o.worn.entries.map (·.2) := by
    have hsame : List.Forall₂ (fun p q : PieceId => p = q) (entries.map (·.piece))
        (o.worn.entries.map (·.2)) := by
      rw [List.forall₂_map_left_iff, List.forall₂_map_right_iff]
      exact hentries.flip.imp fun _ _ h => h.2
    exact List.forall₂_eq_eq_eq ▸ hsame
  let x : Choice q c useful Slot.all := ⟨seed, entries, hseed, hallowed⟩
  have hall : x.set.outfit.worn.entries = o.worn.entries := calc
    x.set.outfit.worn.entries = Slot.all.zip (entries.map (·.piece)) := x.worn_all hc huseful
    _ = (o.worn.entries.map (·.1)).zip (o.worn.entries.map (·.2)) := by
      rw [hpieces, ← ho.slots, OrderedMap.keys]
    _ = o.worn.entries := (List.zip_of_prod rfl rfl).symm
  exact ⟨x, Outfit.ext_entries hall (x.charm_set.trans hcharm)⟩

end Worn

variable {d : CatalogueDraft} {draft : RequestDraft} {c : Catalogue} {q : Request}
variable {g : Groundwork Rat} {o : SearchOptions} {held : Held Rat}

/-- Without cutoffs, assembly keeps a set above every outfit of pieces that can be packed. -/
theorem LaysOut.exists_pairing_above_outfit (hg : q.LaysOut c g) (hc : c.FitsHandles)
    (hr : q.requirements.Coherent c.skills)
    (hwithin : ∀ pieces, q.requirements.withinCutoffs pieces = true) {outfit : Outfit}
    (houtfit : q.Wears c outfit) (hpieces : ∀ p ∈ outfit.pieces, q.packsPiece c g.useful p = true)
    {k : Candidate Rat} {stats : WeaponStats} (hk : q.CandidateOf c k stats) :
    ∃ s ∈ g.sets, ∃ w ∈ g.candidates,
      q.requirements.gearSignature c outfit [] ≤ s.signature ∧
        w.stats.dominates k.stats = true := by
  obtain ⟨x, rfl⟩ := exists_choice_of_wears hc hg.useful houtfit hpieces
  obtain ⟨s, hs, w, hw, hle, hdominates⟩ :=
    hg.exists_pairing_above hc hr (x := x) (fun y _ => hwithin y.signature.pieces) hk
  exact ⟨s, hs, w, hw, (Requirements.gearSignature_nil_le _ _ _ _).trans hle, hdominates⟩

/-- If every skill with a known effect is selected or removed, bludgeoner only sees relevant
levels. -/
theorem bludgeonerGain_eq_of_sameLevels (hd : d.resolve = .ok c) (hq : resolve c draft = .ok q)
    (heffects : ∀ e s, c.skills.holder e = some s →
      e.skillId ∈ draft.requirements.selected.keys ∨ e.skillId ∈ draft.requirements.removed)
    {stats : WeaponStats} {a b : SkillLevels} (hsame : q.requirements.SameLevels a b) :
    Modifiers.bludgeonerGain c.skills q.requirements stats a =
      Modifiers.bludgeonerGain c.skills q.requirements stats b := by
  have hlevel := level_eq_of_sameLevels hd hq heffects hsame
  rw [Modifiers.bludgeonerGain, Modifiers.bludgeonerGain, Modifiers.bladeOf, Modifiers.bladeOf,
    hlevel, hlevel]

open Setting in
/-- If every skill with an effect is selected or removed, no level is asked for and no set bonus has
a cutoff, gear without decorations does no better than what a search holds in the end, as soon as
one pairing stands above it: an armour set with at least the signature of its outfit, and a
candidate that dominates its weapon, has a blade exactly if the weapon has one, gains no less from
bludgeoner and is packed on top of the set.  Above allowed pieces that can be packed there are such
a set and a dominating candidate. -/
theorem undecorated_raw_le (hd : d.resolve = .ok c) (hc : c.FitsHandles)
    (hq : resolve c draft = .ok q)
    (heffects : ∀ e s, c.skills.holder e = some s →
      e.skillId ∈ draft.requirements.selected.keys ∨ e.skillId ∈ draft.requirements.removed)
    (hzero : ∀ e ∈ draft.requirements.selected.entries, e.2 = 0)
    (hcutoffs : draft.requirements.cutoffs = ∅) (hg : q.LaysOut c g)
    (hend : (ofRequest c q g.useful).MayEnd o g.candidates g.sets held) {f : Find Rat}
    (hf : held.best = some f) {k : Candidate Rat} {stats : WeaponStats}
    (hk : q.CandidateOf c k stats) {outfit : Outfit} {e : Effective Rat}
    (he : c.gearEffective q.requirements q.consumables.boost k.weapon outfit [] = .ok e) :
    (q.Wears c outfit → (∀ p ∈ outfit.pieces, q.packsPiece c g.useful p = true) →
        ∃ s ∈ g.sets, ∃ w ∈ g.candidates,
          q.requirements.gearSignature c outfit [] ≤ s.signature ∧
            w.stats.dominates k.stats = true) ∧
      ∀ s ∈ g.sets, q.requirements.gearSignature c outfit [] ≤ s.signature →
        ∀ w ∈ g.candidates, w.stats.dominates k.stats = true →
        w.stats.gauge.isSome = k.stats.gauge.isSome →
        ∀ p ∈ (ofRequest c q g.useful).packings s w,
          Modifiers.bludgeonerGain c.skills q.requirements stats (c.gearLevels stats outfit []) ≤
            Modifiers.bludgeonerGain c.skills q.requirements w.stats
              ((ofRequest c q g.useful).pairedTotal s w p) →
          e.raw ≤ f.effective.raw := by
  have hr := coherent_of_resolve hq
  have ht := CatalogueDraft.limitsInOrder_of_resolve hd
  have hwithin : ∀ pieces, q.requirements.withinCutoffs pieces = true := fun pieces => by
    rw [Requirements.withinCutoffs, cutoffs_of_resolve hq hcutoffs]
    rfl
  refine ⟨fun hworn hpieces => hg.exists_pairing_above_outfit hc hr hwithin hworn hpieces hk, ?_⟩
  intro s hs hle w hw hdominates hblades p hp hgain
  have hdominates := WeaponStats.dominates_iff.1 hdominates
  -- what the gear comes to only depends on its relevant levels, and the pairing has no level fewer
  have hsame := q.requirements.sameLevels_restrictLevels (c.gearLevels stats outfit [])
  have hlevels := count_gearLevels_le (within_of_laysOut hr hg hs) hk.counted hdominates hle hc
    hg.useful hp (List.nil_subperm (l := p.decorations)) hr
  obtain ⟨stats', hstats, heffective⟩ := SuccessfulRun.bind_eq_ok_iff.1 he
  cases hk.own.symm.trans hstats
  have hgear : Effective.ofLevels c.skills q.requirements q.consumables.boost
      k.weapon.weapon.weaponClass k.stats
      (q.requirements.restrictLevels (c.gearLevels stats outfit [])) = .ok e := by
    rw [hk.counted]
    exact (ofLevels_eq_of_sameLevels hd hq heffects hsame).trans heffective
  rw [← bludgeonerGain_eq_of_sameLevels hd hq heffects hsame] at hgain
  -- so that the pairing finds a build with no less effective raw attack
  obtain ⟨finds, hfinds⟩ := exists_finds_eq_ok ht hg hw s
  obtain ⟨packings, hpackings, hmem⟩ := mem_packings.1 hp
  obtain ⟨own, hown⟩ := exists_candidateOf_of_mem_candidates hg.candidates hw
  have hclass := (weaponClass_of_candidateOf hown).trans (weaponClass_of_candidateOf hk).symm
  have hmet := Requirements.metBy_of_minimum_zero (minimum_of_resolve hq hzero)
  obtain ⟨f', hf', hraw⟩ := exists_find_ge (x := ofRequest c q g.useful) ht hclass hdominates
    hblades (hwithin _) hfinds hpackings hmem (hmet _) hlevels (by rw [hk.counted]; exact hgain)
    hgear
  have hbuild : f' ∈ (ofRequest c q g.useful).allBuilds g.sets g.candidates :=
    mem_allBuilds.2 ⟨s, hs, w, hw, (builds_of_finds hfinds).symm ▸ hf'⟩
  exact hraw.trans
    (raw_le_of_mayEnd (pairwise_candidates hg.candidates) (hg.raw_le_ceiling ht) hend hf hbuild)

/-- A request that asks for no level. -/
def modestRequest : RequestDraft :=
  { archerRequest with
    requirements := ⟨.ofList [("ATTACK_BOOST", 0), ("CRITICAL_EYE", 0)], ∅, [], ∅⟩ }

/-- A candidate, what a search in order holds, and the candidate with the first outfit. -/
def firstAgainstHeld (c : Catalogue) (q : Request) (g : Groundwork Rat) :
    Option (Candidate Rat × Find Rat × Effective Rat) :=
  g.candidates.head?.bind fun k =>
  ((Setting.ofRequest c q g.useful).searchInOrder g.candidates g.sets).toOption.bind fun held =>
  held.best.bind fun f =>
  (c.gearEffective q.requirements q.consumables.boost k.weapon (firstOutfit q c) []).toOption.map
    fun e => (k, f, e)

theorem exists_held_of_firstAgainstHeld {k : Candidate Rat} {f : Find Rat} {e : Effective Rat}
    (h : firstAgainstHeld c q g = some (k, f, e)) :
    k ∈ g.candidates ∧
      c.gearEffective q.requirements q.consumables.boost k.weapon (firstOutfit q c) [] = .ok e ∧
      ∃ held, (Setting.ofRequest c q g.useful).MayEnd {} g.candidates g.sets held ∧
        held.best = some f := by
  obtain ⟨k', hk, h⟩ := Option.bind_eq_some_iff.1 h
  obtain ⟨held, hheld, h⟩ := Option.bind_eq_some_iff.1 h
  obtain ⟨f', hf, h⟩ := Option.bind_eq_some_iff.1 h
  obtain ⟨e', he, h⟩ := Option.map_eq_some_iff.1 h
  cases h
  exact ⟨List.mem_of_mem_head? hk, SuccessfulRun.toOption_eq_some_iff.1 he, held,
    .inOrder rfl (SuccessfulRun.toOption_eq_some_iff.1 hheld), hf⟩

open Setting in
/-- The first allowed pieces have the same head piece without its jewel. -/
theorem undecorated_raw_le_archer :
    ∃ c q, ∃ g : Groundwork Rat, ∃ held f k, ∃ e : Effective Rat,
      archerDraft.resolve = .ok c ∧ c.FitsHandles ∧ resolve c modestRequest = .ok q ∧
      q.LaysOut c g ∧ (ofRequest c q g.useful).MayEnd {} g.candidates g.sets held ∧
      held.best = some f ∧ q.Wears c (firstOutfit q c) ∧
      c.gearEffective q.requirements q.consumables.boost k (firstOutfit q c) [] = .ok e ∧
      (e.raw, f.effective.raw) = ((106, 1863 / 16) : Rat × Rat) ∧ e.raw ≤ f.effective.raw := by
  have hrun : (fromGroundwork archerDraft modestRequest fun c q (g : Groundwork Rat) =>
      (firstAgainstHeld c q g).bind fun found =>
        if c.FitsHandles ∧ q.Wears c (firstOutfit q c) ∧
            (∀ e ∈ Effect.all, (c.skills.holder e).all fun _ =>
              e.skillId ∈ modestRequest.requirements.selected.keys) ∧
            (∀ p ∈ (firstOutfit q c).pieces, q.packsPiece c g.useful p = true) ∧
            (∀ s ∈ g.sets, ∀ w ∈ g.candidates, (ofRequest c q g.useful).packings s w ≠ []) ∧
            ∀ w ∈ g.candidates, w.stats.RangedAlike found.1.stats then
          some (found.2.2.raw, found.2.1.effective.raw) else none) =
      some ((106, 1863 / 16) : Rat × Rat) := by
    decide +kernel
  obtain ⟨c, q, g, hc, hq, hlaid, hrun⟩ := exists_of_fromGroundwork hrun
  obtain ⟨⟨k, f, e⟩, hfound, hrun⟩ := Option.bind_eq_some_iff.1 hrun
  obtain ⟨hk, he, held, hend, hf⟩ := exists_held_of_firstAgainstHeld hfound
  obtain ⟨⟨hfits, hwears, heffects, hpieces, hpacked, halike⟩, hrun⟩ :=
    Option.ite_none_right_eq_some.1 hrun
  have hselected : ∀ e s, c.skills.holder e = some s →
      e.skillId ∈ modestRequest.requirements.selected.keys ∨
        e.skillId ∈ modestRequest.requirements.removed := by
    intro e s hs
    have hall := heffects e (Effect.mem_all e)
    rw [hs, Option.all_some] at hall
    exact .inl (of_decide_eq_true hall)
  obtain ⟨stats, hcandidate⟩ := exists_candidateOf_of_mem_candidates hlaid.candidates hk
  obtain ⟨habove, hraw⟩ := undecorated_raw_le hc hfits hq hselected (by decide) rfl hlaid hend hf
    hcandidate he
  obtain ⟨s, hs, w, hw, hle, hdominates⟩ := habove hwears hpieces
  obtain ⟨p, hp⟩ := List.exists_mem_of_ne_nil _ (hpacked s hs w hw)
  obtain ⟨-, -, -, hmine, htheirs⟩ := halike w hw
  have hgain : Modifiers.bludgeonerGain c.skills q.requirements stats
      (c.gearLevels stats (firstOutfit q c) []) = 0 := by
    rw [← (halike w hw).bludgeonerGain_eq c.skills q.requirements
      (c.gearLevels stats (firstOutfit q c) []), hcandidate.counted]
    rfl
  exact ⟨c, q, g, held, f, k.weapon, e, hc, hfits, hq, hlaid, hend, hf, hwears, he,
    Option.some.inj hrun, hraw s hs hle w hw hdominates (by rw [hmine, htheirs]) p hp
      (hgain ▸ Nat.zero_le _)⟩

/-- Spare head pieces without a slot. -/
def spareDraft : CatalogueDraft :=
  openSlotDraft [⟨"Spare", .low, none, .ofList [(.head, ⟨∅, []⟩)]⟩]

open Setting in
/-- A search only wears the spare head piece, and the other one does better with its slot open. -/
theorem open_slot_raw_exceeds :
    ¬ ∀ (d : CatalogueDraft) (c : Catalogue) (draft : RequestDraft) (q : Request)
        (g : Groundwork Rat) (o : SearchOptions) (held : Held Rat) (f : Find Rat),
      d.resolve = .ok c → c.FitsHandles → resolve c draft = .ok q →
      (∀ s ∈ c.skills.skills.toList, s.id ∈ draft.requirements.selected.keys ∨
        s.id ∈ draft.requirements.removed) →
      (∀ e ∈ draft.requirements.selected.entries, e.2 = 0) → draft.requirements.cutoffs = ∅ →
      q.LaysOut c g → (ofRequest c q g.useful).MayEnd o g.candidates g.sets held →
      held.best = some f →
      ∀ (outfit : Outfit) (k : Candidate Rat) (stats : WeaponStats) (e : Effective Rat),
        outfit.worn.keys = Slot.all →
        (∀ w ∈ outfit.worn.entries, (w.2, c.piece w.2) ∈ q.allowedPieces c w.1) →
        (∀ h ∈ outfit.charm, (h, c.charm h) ∈ c.allCharms) → q.CandidateOf c k stats →
        c.gearEffective q.requirements q.consumables.boost k.weapon outfit [] = .ok e →
        e.raw ≤ f.effective.raw := by
  intro hall
  have hrun : (fromGroundwork spareDraft (openSlotRequest 0) fun c q (g : Groundwork Rat) =>
      (firstAgainstHeld c q g).bind fun found =>
        if c.FitsHandles ∧ q.Wears c (firstOutfit q c) ∧ ∀ s ∈ c.skills.skills.toList,
            s.id ∈ (openSlotRequest 0).requirements.selected.keys then
          some (found.2.2.raw, found.2.1.effective.raw) else none) =
      some ((103, 100) : Rat × Rat) := by
    decide +kernel
  obtain ⟨c, q, g, hc, hq, hlaid, hrun⟩ := exists_of_fromGroundwork hrun
  obtain ⟨⟨k, f, e⟩, hfound, hrun⟩ := Option.bind_eq_some_iff.1 hrun
  obtain ⟨hk, he, held, hend, hf⟩ := exists_held_of_firstAgainstHeld hfound
  obtain ⟨⟨hfits, hwears, hselected⟩, hrun⟩ := Option.ite_none_right_eq_some.1 hrun
  obtain ⟨stats, hcandidate⟩ := exists_candidateOf_of_mem_candidates hlaid.candidates hk
  have hle := hall spareDraft c (openSlotRequest 0) q g {} held f hc hfits hq
    (fun s hs => .inl (hselected s hs)) (by decide) rfl hlaid hend hf (firstOutfit q c) k stats e
    hwears.slots hwears.pieces (fun h hh => (hwears.charm h hh).1) hcandidate he
  obtain ⟨heraw, hfraw⟩ := Prod.mk.inj (Option.some.inj hrun)
  rw [heraw, hfraw] at hle
  exact absurd hle (by norm_num)

end Request

end Loadout
