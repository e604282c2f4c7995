import Loadout.Proofs.ReportedBuilds
import Loadout.Proofs.WornGear

/-!
# The accounts of a build

A search adds levels up in stages, capped at each stage and without what is irrelevant, while gear
is counted at once.  Both are the capped sum of what the gear and its set bonuses grant, so the
levels and pieces of a reported build are those of its gear, restricted to what is relevant.
-/

namespace Loadout

/-- Leaving out what yields nothing anyway changes nothing. -/
theorem filter_flatMap_filter {α β : Type} {keeps : α → Bool} {counts : β → Bool}
    {yield : α → List β} (h : ∀ a, ¬ keeps a = true → (yield a).filter counts = [])
    (items : List α) :
    ((items.filter keeps).flatMap yield).filter counts = (items.flatMap yield).filter counts := by
  induction items with
  | nil => rfl
  | cons a rest ih =>
      rw [List.flatMap_cons, List.filter_append, ← ih]
      by_cases ha : keeps a = true
      · rw [List.filter_cons_of_pos ha, List.flatMap_cons, List.filter_append]
      · rw [List.filter_cons_of_neg ha, h a ha, List.nil_append]

theorem toList_filter_map {κ : Type} (keep : κ → Bool) (k : Option κ) :
    (k.filter keep).toList.map (·, 1) = (k.toList.map (·, 1)).filter fun e => keep e.1 := by
  cases k with
  | none => rfl
  | some k => cases h : keep k <;> simp [h]

namespace Requirements

variable {t : SkillTable} {r : Requirements}

/-- Restricting the worn pieces takes no relevant skill away. -/
theorem Coherent.filter_unlocked (hr : r.Coherent t) (pieces : SetPieces) :
    ((r.restrictPieces pieces).unlocked t).filter r.relevant =
      (pieces.unlocked t).filter r.relevant := by
  apply filter_flatMap_filter
  intro p hp
  rw [List.filter_eq_nil_iff]
  intro s hs hrelevant
  obtain ⟨stage, hstage, rfl⟩ := List.mem_map.1 hs
  exact hp (hr.relevant_of_stage (List.mem_filter.1 hstage).1 hrelevant)

end Requirements

namespace Catalogue

/-- What gear and weapon grant, set bonuses left out. -/
def gearGrants (c : Catalogue) (stats : WeaponStats) (o : Outfit)
    (decorations : List DecorationId) : List (SkillId × Nat) :=
  o.grants c ++ c.decorationGrants decorations ++ stats.skill.toList.map (·, 1)

variable {c : Catalogue} {stats : WeaponStats} {o : Outfit} {decorations : List DecorationId}

theorem gearPieces_eq : c.gearPieces stats o = Tally.collect (fun _ => maxPieces)
    ((o.pieces.filterMap fun p => (c.piece p).bonus).map (·, 1) ++
      stats.bonus.toList.map (·, 1)) := by
  unfold gearPieces
  rw [Outfit.setPieces, SetPieces.ofCounts_eq_collect]
  cases stats.bonus with
  | none => simp
  | some b =>
      simp only [SetPieces.wear_eq_raiseAll, Tally.raiseAll_collect, Option.toList_some,
        List.map_cons, List.map_nil]

theorem wornLevels_eq : SkillLevels.merge c.skills (o.levels c) (c.decorationLevels decorations) =
    Tally.collect c.skills.cap (o.grants c ++ c.decorationGrants decorations) :=
  Tally.merge_collect _ _ _

theorem gearLevels_eq : c.gearLevels stats o decorations = Tally.collect c.skills.cap
    (c.gearGrants stats o decorations ++
      ((c.gearPieces stats o).unlocked c.skills).map (·, 1)) := by
  unfold gearLevels gearGrants
  rw [wornLevels_eq, SkillLevels.grant]
  cases stats.skill with
  | none => simp [SkillLevels.gainAll_eq_raiseAll, Tally.raiseAll_collect]
  | some s =>
      simp only [SkillLevels.gain_eq_raiseAll, SkillLevels.gainAll_eq_raiseAll,
        Tally.raiseAll_collect, Option.toList_some, List.map_cons, List.map_nil]

end Catalogue

variable {R : Type}

namespace Setting

theorem pairedPieces_eq (set : ArmourSet) (w : Candidate R) : pairedPieces set w =
    Tally.raiseAll (fun _ => maxPieces) set.signature.pieces (w.stats.bonus.toList.map (·, 1)) := by
  unfold pairedPieces
  cases w.stats.bonus <;> rfl

theorem pairedLevels_eq (x : Setting R) (set : ArmourSet) (w : Candidate R) :
    x.pairedLevels set w =
      Tally.raiseAll x.skills.cap set.signature.levels (w.stats.skill.toList.map (·, 1)) := by
  unfold pairedLevels
  cases w.stats.skill <;> rfl

end Setting

namespace Choice

variable [Reckoning R] {q : Request} {c : Catalogue} {useful : List UsefulDecoration}
variable {w : Candidate R} {stats : WeaponStats} {chosen : List UsefulDecoration}

section Equipped

variable (hc : c.FitsHandles) (huseful : c.decorationsFor q.requirements = .ok useful)
variable (x : Choice q c useful Slot.all)
include hc huseful

omit [Reckoning R] in
theorem pairedPieces_eq (hcounted : w.stats = q.requirements.restrictStats stats) :
    Setting.pairedPieces x.set w =
      q.requirements.restrictPieces (c.gearPieces stats x.set.outfit) := by
  have hsignature := x.signature_eq hc huseful
  rw [Setting.pairedPieces_eq, x.signature_set, hsignature, hcounted, Catalogue.gearPieces_eq,
    Requirements.restrictPieces, Tally.keep_collect]
  simp only [Signature.ofGrants, Requirements.restrictStats, toList_filter_map,
    Tally.raiseAll_collect, List.filter_append, x.pieces_eq hc huseful]

/-- The levels of a packing are what is relevant of what set, weapon and decorations grant. -/
theorem packedLevels_eq (hcounted : w.stats = q.requirements.restrictStats stats)
    (hchosen : ∀ u ∈ chosen, u ∈ useful) :
    SkillLevels.gainAll c.skills ((Setting.ofRequest c q useful : Setting R).pairedLevels x.set w)
        (chosen.flatMap (·.levels)) =
      Tally.collect c.skills.cap ((x.grants ++ stats.skill.toList.map (·, 1) ++
        c.decorationGrants (chosen.map UsefulDecoration.id)).filter fun g =>
          q.requirements.relevant g.1) := by
  have hsignature := x.signature_eq hc huseful
  have hlevels := Request.filter_levels_of_useful huseful hchosen
  have hdecorations := Request.filter_levels_eq_filter_grants hc huseful hchosen
  rw [hlevels] at hdecorations
  rw [Setting.pairedLevels_eq, x.signature_set, hsignature, hcounted]
  simp only [Setting.ofRequest, Signature.ofGrants, Requirements.restrictStats, toList_filter_map,
    SkillLevels.gainAll_eq_raiseAll, Tally.raiseAll_collect, List.filter_append, hdecorations]

theorem gearGrants_perm (stats : WeaponStats) (chosen : List UsefulDecoration) :
    (x.grants ++ stats.skill.toList.map (·, 1) ++
        c.decorationGrants (chosen.map UsefulDecoration.id)).Perm
      (c.gearGrants stats x.set.outfit (x.set.decorations ++ chosen.map UsefulDecoration.id)) := by
  have hset := x.grants_perm hc huseful
  have hmove : ∀ armour skill weapon : List (SkillId × Nat),
      (armour ++ skill ++ weapon).Perm (armour ++ weapon ++ skill) := by
    intro armour skill weapon
    rw [List.append_assoc, List.append_assoc]
    exact List.perm_append_comm.append_left armour
  rw [Catalogue.gearGrants, Catalogue.decorationGrants_append, ← List.append_assoc]
  exact ((hset.append_right _).append_right _).trans (hmove _ _ _)

/-- The levels of a pairing are the relevant ones of its gear. -/
theorem pairedLevels_eq (hr : q.requirements.Coherent c.skills)
    (hcounted : w.stats = q.requirements.restrictStats stats)
    (hchosen : ∀ u ∈ chosen, u ∈ useful) :
    q.requirements.restrictLevels (SkillLevels.grant c.skills
        (SkillLevels.gainAll c.skills
          ((Setting.ofRequest c q useful : Setting R).pairedLevels x.set w)
          (chosen.flatMap (·.levels)))
        (Setting.pairedPieces x.set w)) =
      q.requirements.restrictLevels
        (c.gearLevels stats x.set.outfit
          (x.set.decorations ++ chosen.map UsefulDecoration.id)) := by
  have hunlocked := hr.filter_unlocked (c.gearPieces stats x.set.outfit)
  rw [← x.pairedPieces_eq hc huseful hcounted] at hunlocked
  have hgranted : ∀ skills : List SkillId,
      (skills.map (·, 1)).filter (fun g => q.requirements.relevant g.1) =
        (skills.filter q.requirements.relevant).map (·, 1) := by
    intro skills
    rw [List.filter_map]
    rfl
  have hperm := (x.gearGrants_perm hc huseful stats chosen).filter
    fun g => q.requirements.relevant g.1
  rw [x.packedLevels_eq hc huseful hcounted hchosen, SkillLevels.grant,
    SkillLevels.gainAll_eq_raiseAll, Tally.raiseAll_collect, Requirements.restrictLevels,
    Tally.keep_collect, Requirements.restrictLevels, Catalogue.gearLevels_eq, Tally.keep_collect]
  -- what is left are the same grants in another order
  apply Tally.collect_perm
  simp only [List.filter_append, List.filter_filter, Bool.and_self, hgranted, hunlocked]
    at hperm ⊢
  exact hperm.append_right _

end Equipped

end Choice

namespace Request

variable [Reckoning R]
variable {q : Request} {c : Catalogue} {f : Find R} {useful : List UsefulDecoration}

section BuildOf

variable {x : Choice q c useful Slot.all} {w : Candidate R} {stats : WeaponStats} {p : Packing}
variable {chosen : List UsefulDecoration}

theorem BuildOf.pieces_eq (hc : c.FitsHandles) (h : q.BuildOf c f useful x w stats p chosen) :
    f.pieces = q.requirements.restrictPieces (c.gearPieces stats f.outfit) := by
  rw [h.found.pieces, h.found.outfit]
  exact x.pairedPieces_eq hc h.listed h.candidate.counted

theorem BuildOf.levels_eq (hc : c.FitsHandles) (hr : q.requirements.Coherent c.skills)
    (h : q.BuildOf c f useful x w stats p chosen) :
    f.levels = q.requirements.restrictLevels (c.gearLevels stats f.outfit f.decorations) := by
  rw [h.found.levels, h.found.pieces, h.found.outfit, h.found.decorations, h.filled.levels,
    h.filled.decorations]
  exact x.pairedLevels_eq hc h.listed hr h.candidate.counted h.fromListed

end BuildOf

variable {d : RequestDraft} {o : SearchOptions}

/-- The levels and pieces of a reported build are those of its gear, counted with the weapon's own
stats, as far as they are relevant. -/
theorem reported_accounts (hc : c.FitsHandles) (hq : resolve c d = .ok q) (h : q.Reports c o f) :
    ∃ stats, f.weapon.stats = .ok stats ∧
      f.levels = q.requirements.restrictLevels (c.gearLevels stats f.outfit f.decorations) ∧
      f.pieces = q.requirements.restrictPieces (c.gearPieces stats f.outfit) := by
  have hr := coherent_of_resolve hq
  obtain ⟨useful, x, w, stats, p, chosen, hbuild⟩ := exists_buildOf_of_reports hr h
  exact ⟨stats, hbuild.own, hbuild.levels_eq hc hr, hbuild.pieces_eq hc⟩

theorem reported_accounts_archer : ∃ c q stats, ∃ f : Find Rat, archerDraft.resolve = .ok c ∧
    c.FitsHandles ∧ resolve c archerRequest = .ok q ∧ q.Reports c {} f ∧
      f.weapon.stats = .ok stats ∧
      f.levels = q.requirements.restrictLevels (c.gearLevels stats f.outfit f.decorations) ∧
      f.pieces = q.requirements.restrictPieces (c.gearPieces stats f.outfit) := by
  obtain ⟨c, q, f, hd, hc, hq, hf⟩ := exists_archer_report
  obtain ⟨stats, haccounts⟩ := reported_accounts hc hq hf
  exact ⟨c, q, stats, f, hd, hc, hq, hf, haccounts⟩

end Request

end Loadout
