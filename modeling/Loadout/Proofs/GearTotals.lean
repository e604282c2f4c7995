import Loadout.Proofs.LargerPairings
import Loadout.Proofs.SkillLimits
import Mathlib.Algebra.BigOperators.Group.Finset.Basic

/-!
# Totals of gear

The levels of gear are gathered in tallies that are cut at every step: pieces and charm in one,
decorations in another, then the weapon's skill, and last the stages that the worn sets reach, whose
pieces are counted in a tally of their own.  No cut on the way is seen in the end.  A skill has all
levels that anything grants it, added up and cut once, and it is listed as soon as there are any,
since every limit of a loaded catalogue leaves room for one.
-/

namespace Loadout

open Std

namespace Tally

variable {κ : Type} [DecidableEq κ]

theorem unitsOf_map_const (keys : List κ) (n : Nat) (k : κ) :
    unitsOf (keys.map (·, n)) k = keys.count k * n := by
  induction keys with
  | nil => simp
  | cons j rest ih =>
      by_cases hjk : j = k
      · simp [ih, hjk, Nat.add_mul, Nat.add_comm]
      · simp [ih, hjk]

/-- What the listed units weigh is what the units of all keys weigh, if those of a key without
units, and of any key that is left out, weigh nothing. -/
theorem sum_toList_eq_sum [Ord κ] [TransOrd κ] [LawfulEqOrd κ] (t : Tally κ) (keys : Finset κ)
    {weight : κ → Nat → Nat} (hzero : ∀ k, weight k 0 = 0)
    (hout : ∀ k, k ∉ keys → weight k (t.count k) = 0) :
    (t.toList.map fun e => weight e.1 e.2).sum = ∑ k ∈ keys, weight k (t.count k) := by
  have hnodup : (t.toList.map (·.1)).Nodup := t.counts.nodup_keys
  rw [map_toList, ← List.sum_toFinset _ hnodup]
  apply Finset.sum_congr_of_eq_on_inter
  · intro k _ hk
    exact hout k hk
  · intro k _ hk
    have hcount : t.count k = 0 := by
      by_contra hne
      obtain ⟨n, hn⟩ := exists_mem_toList_iff.2 (Nat.pos_of_ne_zero hne)
      exact hk (List.mem_toFinset.2 (List.mem_map_of_mem hn))
    rw [hcount, hzero]
  · intro k _ _
    rfl

end Tally

/-- Whether every stage of a set bonus asks for some piece, and for no more than can be worn. -/
def SkillTable.StagesInRange (t : SkillTable) : Prop :=
  ∀ b, ∀ stage ∈ (t.bonus b).stages, 1 ≤ stage.pieces ∧ stage.pieces ≤ maxPieces

theorem SkillsDraft.stages_of_resolveBonus {d : SkillsDraft} {id : String} {b : BonusDraft}
    {bonus : SetBonus} (h : d.resolveBonus id b = .ok bonus) :
    ∀ stage ∈ bonus.stages, 1 ≤ stage.pieces ∧ stage.pieces ≤ maxPieces := by
  obtain ⟨stages, hstages, h⟩ := SuccessfulRun.bind_eq_ok_iff.1 h
  cases h
  intro stage hstage
  obtain ⟨s, -, hs⟩ := SuccessfulRun.exists_item (SuccessfulRun.mapM_eq_ok_iff.1 hstages)
    (List.mem_mergeSort.1 hstage)
  obtain ⟨skill, -, hs⟩ := SuccessfulRun.bind_eq_ok_iff.1 hs
  obtain ⟨_, hrange, hs⟩ := SuccessfulRun.bind_eq_ok_iff.1 hs
  cases hs
  simpa using demand_eq_ok_iff.1 hrange

theorem SkillsDraft.stagesInRange_of_resolve {d : SkillsDraft} {t : SkillTable}
    (h : d.resolve = .ok t) : t.StagesInRange := by
  have hstages : ∀ bonus ∈ t.bonuses.toList, ∀ stage ∈ bonus.stages,
      1 ≤ stage.pieces ∧ stage.pieces ≤ maxPieces := by
    intro bonus hbonus
    obtain ⟨e, -, hresolve⟩ := SuccessfulRun.exists_item (resolves_of_resolve h).bonuses hbonus
    exact stages_of_resolveBonus hresolve
  -- a handle without an entry stands for a set bonus without stages
  exact fun b => getD_of_forall (fun stage hstage => by cases hstage) hstages b.index.toNat

/-- How many stages of a set bonus grant a skill and ask for no more than a number of pieces. -/
def SkillTable.stagesReached (t : SkillTable) (s : SkillId) (b : BonusId) (pieces : Nat) : Nat :=
  (t.bonus b).stages.countP fun stage => stage.skill = s ∧ stage.pieces ≤ pieces

theorem SetPieces.count_unlocked_eq_sum {t : SkillTable} (ht : t.StagesInRange)
    (pieces : SetPieces) (s : SkillId) : (pieces.unlocked t).count s =
      ∑ b ∈ t.bonusIds.toFinset, t.stagesReached s b (pieces.count b) := by
  have hreached : ∀ b n, (((t.bonus b).stages.filter (·.pieces ≤ n)).map (·.skill)).count s =
      t.stagesReached s b n := by
    intro b n
    rw [List.count_eq_countP, List.countP_map, List.countP_filter]
    simp [SkillTable.stagesReached, beq_eq_decide]
  simp only [count_unlocked, hreached]
  apply Tally.sum_toList_eq_sum
  · -- no stage is reached without pieces
    intro b
    apply List.countP_eq_zero.2
    intro stage hstage
    have hrange := ht b stage hstage
    simp
    omega
  · intro b hb
    apply List.countP_eq_zero.2
    intro stage hstage
    exact absurd (List.mem_toFinset.2 (SkillTable.mem_bonusIds_of_stage hstage)) hb

namespace Catalogue

section Totals

variable (c : Catalogue) (stats : WeaponStats) (o : Outfit) (decorations : List DecorationId)

/-- How many pieces of a set bonus are worn, the one of the weapon among them. -/
def wornPieces (b : BonusId) : Nat :=
  min maxPieces ((o.pieces.countP fun p => (c.piece p).bonus = some b) +
    if stats.bonus = some b then 1 else 0)

/-- All levels of a skill that gear grants, whatever the limits of the skill. -/
def totalLevels (s : SkillId) : Nat :=
  (o.pieces.map fun p => Tally.unitsOf (c.piece p).skills s).sum +
  (decorations.map fun d => Tally.unitsOf (c.decoration d).skills s).sum +
  (o.charm.map fun h => (c.charm h).skills.count s * (c.charm h).maxLevel).getD 0 +
  (if stats.skill = some s then 1 else 0) +
  ∑ b ∈ c.skills.bonusIds.toFinset, c.skills.stagesReached s b (c.wornPieces stats o b)

end Totals

variable {c : Catalogue} {stats : WeaponStats} {o : Outfit} {decorations : List DecorationId}

theorem count_gearPieces (b : BonusId) :
    (c.gearPieces stats o).count b = c.wornPieces stats o b := by
  rw [gearPieces_eq, Tally.count_collect, Tally.unitsOf_append, Tally.unitsOf_map_one,
    Tally.unitsOf_toList_map_one, List.count_filterMap, wornPieces, Nat.min_comm]
  simp only [beq_eq_decide]

theorem unitsOf_grants (s : SkillId) : Tally.unitsOf (o.grants c) s =
    (o.pieces.map fun p => Tally.unitsOf (c.piece p).skills s).sum +
      (o.charm.map fun h => (c.charm h).skills.count s * (c.charm h).maxLevel).getD 0 := by
  rw [Outfit.grants, Tally.unitsOf_append, Tally.unitsOf_flatMap]
  cases o.charm with
  | none => rfl
  | some h => simp [Charm.grants, Tally.unitsOf_map_const]

theorem count_gearLevels (ht : c.skills.StagesInRange) (s : SkillId) :
    (c.gearLevels stats o decorations).count s =
      min (c.totalLevels stats o decorations s) (c.skills.cap s) := by
  have hskill : Tally.unitsOf (stats.skill.toList.map (·, 1)) s =
      if stats.skill = some s then 1 else 0 := Tally.unitsOf_toList_map_one _ _
  rw [gearLevels_eq, Tally.count_collect, gearGrants]
  simp only [Tally.unitsOf_append, unitsOf_grants, hskill, Tally.unitsOf_map_one,
    SetPieces.count_unlocked_eq_sum ht, count_gearPieces, decorationGrants, Tally.unitsOf_flatMap]
  congr 1
  unfold totalLevels
  omega

/-- The levels of gear in a loaded catalogue are its totals, each cut at the secret limit, and what
is listed is what has a total. -/
theorem gearLevels_of_totals {d : CatalogueDraft} (hd : d.resolve = .ok c) (stats : WeaponStats)
    (o : Outfit) (decorations : List DecorationId) (s : SkillId) :
    (c.gearLevels stats o decorations).count s =
        min (c.skills.skill s).secretLimit (c.totalLevels stats o decorations s) ∧
      ((∃ n, (s, n) ∈ (c.gearLevels stats o decorations).toList) ↔
        0 < c.totalLevels stats o decorations s) ∧
      ∀ n, (s, n) ∈ (c.gearLevels stats o decorations).toList → 0 < n := by
  obtain ⟨hone, hlimit⟩ := CatalogueDraft.limitsInOrder_of_resolve hd s
  have hcount : (c.gearLevels stats o decorations).count s =
      min (c.totalLevels stats o decorations s) (c.skills.skill s).secretLimit :=
    count_gearLevels
      (SkillsDraft.stagesInRange_of_resolve (CatalogueDraft.resolves_of_resolve hd).skills) s
  refine ⟨hcount.trans (Nat.min_comm _ _), ?_, ?_⟩
  · rw [Tally.exists_mem_toList_iff, hcount]
    omega
  · intro n hn
    exact (Tally.mem_toList_iff.1 hn).2

/-- One skill of everything: a headpiece of a set, a jewel, a charm and the set itself. -/
def apprenticeDraft : CatalogueDraft where
  skills := ⟨.ofList [("ATTACK_BOOST", ⟨"Attack Boost", 4, none, none, none⟩)],
    .ofList [("GUILD", ⟨"Guild", [⟨2, "ATTACK_BOOST"⟩]⟩)]⟩
  decorations := [⟨"ATTACK_JEWEL", "Attack Jewel", 1, .ofList [("ATTACK_BOOST", 1)]⟩]
  armour := [⟨"Guild", .low, some "GUILD", .ofList [(.head, ⟨.ofList [("ATTACK_BOOST", 1)], [1]⟩)]⟩]
  charms := [⟨"ATTACK_CHARM", "Attack Charm", 1, ["ATTACK_BOOST"]⟩]
  weapons := []
  buffs := []

/-- A weapon with the skill and with a piece of the set. -/
def apprenticeStats : WeaponStats :=
  { (default : WeaponStats) with skill := some (.ofIndex 0), bonus := some (.ofIndex 0) }

def apprenticeOutfit : Outfit := ⟨.ofList [(.head, .ofIndex 0)], some (.ofIndex 0)⟩

theorem gearLevels_of_totals_apprentice :
    ∃ c, apprenticeDraft.resolve = .ok c ∧
      c.totalLevels apprenticeStats apprenticeOutfit [.ofIndex 0] (.ofIndex 0) = 5 ∧
      (c.gearLevels apprenticeStats apprenticeOutfit [.ofIndex 0]).count (.ofIndex 0) = 4 ∧
      ∃ n, (SkillId.ofIndex 0, n) ∈
        (c.gearLevels apprenticeStats apprenticeOutfit [.ofIndex 0]).toList := by
  have hrun : (apprenticeDraft.resolve.toOption.map fun c =>
      (c.totalLevels apprenticeStats apprenticeOutfit [.ofIndex 0] (.ofIndex 0),
        (c.skills.skill (.ofIndex 0)).secretLimit)) = some (5, 4) := by
    decide +kernel
  obtain ⟨c, hc, hrun⟩ := Option.map_eq_some_iff.1 hrun
  obtain ⟨htotal, hlimit⟩ := Prod.mk.inj hrun
  have hd := SuccessfulRun.toOption_eq_some_iff.1 hc
  obtain ⟨hcount, hlisted, -⟩ :=
    gearLevels_of_totals hd apprenticeStats apprenticeOutfit [.ofIndex 0] (.ofIndex 0)
  rw [htotal, hlimit] at hcount
  exact ⟨c, hd, htotal, hcount, hlisted.2 (by simp [htotal])⟩

end Catalogue

end Loadout
