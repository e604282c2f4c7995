import Loadout.Proofs.BuildAccounts
import Mathlib.Algebra.Order.BigOperators.Group.List
import Mathlib.Data.List.Perm.Subperm

/-!
# Larger pairings

More worn pieces reach every stage that fewer reach, so a set bonus or a skill that one weapon has
beyond another one never lowers a level of a pairing.
-/

namespace Loadout

open Std

namespace Tally

section Sums

variable {κ : Type} [Ord κ] [LawfulEqOrd κ]

theorem map_toList (t : Tally κ) (weight : κ → Nat → Nat) :
    t.toList.map (fun e => weight e.1 e.2) =
      (t.toList.map (·.1)).map fun k => weight k (t.count k) := by
  rw [List.map_map]
  refine List.map_congr_left ?_
  rintro ⟨k, n⟩ he
  obtain ⟨rfl, -⟩ := mem_toList_iff.1 he
  rfl

/-- A larger tally weighs no less, whatever its units weigh. -/
theorem sum_toList_mono [TransOrd κ] {weight : κ → Nat → Nat} (hweight : ∀ k, Monotone (weight k))
    {a b : Tally κ} (h : ∀ k, a.count k ≤ b.count k) :
    (a.toList.map fun e => weight e.1 e.2).sum ≤ (b.toList.map fun e => weight e.1 e.2).sum := by
  have hkeys : (a.toList.map (·.1)).Subperm (b.toList.map (·.1)) := by
    have hnodup : (a.toList.map (·.1)).Nodup := a.counts.nodup_keys
    refine hnodup.subperm fun k hk => ?_
    obtain ⟨⟨k, n⟩, he, rfl⟩ := List.mem_map.1 hk
    have hpos := exists_mem_toList_iff.1 ⟨n, he⟩
    obtain ⟨m, hm⟩ := exists_mem_toList_iff.2 (hpos.trans_le (h k))
    exact List.mem_map.2 ⟨(k, m), hm, rfl⟩
  obtain ⟨front, hfront, hsub⟩ := hkeys
  rw [map_toList, map_toList]
  calc ((a.toList.map (·.1)).map fun k => weight k (a.count k)).sum
      ≤ ((a.toList.map (·.1)).map fun k => weight k (b.count k)).sum :=
        List.sum_le_sum fun k _ => hweight k (h k)
    _ = (front.map fun k => weight k (b.count k)).sum := (hfront.map _).sum_eq.symm
    _ ≤ ((b.toList.map (·.1)).map fun k => weight k (b.count k)).sum :=
        (hsub.map _).sum_le_sum (by simp)

end Sums

end Tally

namespace SetPieces

theorem count_unlocked (t : SkillTable) (pieces : SetPieces) (s : SkillId) :
    (pieces.unlocked t).count s = (pieces.toList.map fun p =>
      (((t.bonus p.1).stages.filter (·.pieces ≤ p.2)).map (·.skill)).count s).sum := by
  rw [unlocked, List.count_flatMap]
  rfl

theorem count_unlocked_mono (t : SkillTable) {pieces pieces' : SetPieces}
    (h : ∀ b, pieces.count b ≤ pieces'.count b) (s : SkillId) :
    (pieces.unlocked t).count s ≤ (pieces'.unlocked t).count s := by
  have hstages : ∀ b, Monotone fun n =>
      (((t.bonus b).stages.filter (·.pieces ≤ n)).map (·.skill)).count s := by
    intro b m n hmn
    refine List.Sublist.count_le s (List.Sublist.map _ (List.monotone_filter_right _ ?_))
    intro stage hstage
    rw [decide_eq_true_iff] at hstage ⊢
    exact hstage.trans hmn
  rw [count_unlocked, count_unlocked]
  exact Tally.sum_toList_mono hstages h

end SetPieces

theorem SkillLevels.count_grant_mono {t : SkillTable} {levels levels' : SkillLevels}
    (hcapped : levels.Capped t.cap) (hcapped' : levels'.Capped t.cap)
    (hlevels : ∀ s, levels.count s ≤ levels'.count s) {pieces pieces' : SetPieces}
    (hpieces : ∀ b, pieces.count b ≤ pieces'.count b) (s : SkillId) :
    (levels.grant t pieces).count s ≤ (levels'.grant t pieces').count s := by
  have hs := hlevels s
  have hunlocked := SetPieces.count_unlocked_mono t hpieces s
  rw [grant, grant, gainAll_eq_raiseAll, gainAll_eq_raiseAll, hcapped.count_raiseAll,
    hcapped'.count_raiseAll, Tally.unitsOf_map_one, Tally.unitsOf_map_one]
  omega

namespace Requirements

variable {r : Requirements} {levels levels' : SkillLevels}

theorem count_restrictLevels_mono (h : ∀ s, levels.count s ≤ levels'.count s) (s : SkillId) :
    (r.restrictLevels levels).count s ≤ (r.restrictLevels levels').count s := by
  rw [restrictLevels, restrictLevels, Tally.count_keep, Tally.count_keep]
  split
  · exact h s
  · exact le_rfl

theorem metBy_mono (h : ∀ s, levels.count s ≤ levels'.count s) (hmet : r.metBy levels = true) :
    r.metBy levels' = true := by
  unfold metBy at hmet ⊢
  rw [List.all_eq_true] at hmet ⊢
  intro e he
  exact decide_eq_true ((of_decide_eq_true (hmet e he)).trans (h e.1))

end Requirements

namespace Packing

variable {t : SkillTable} {useful : List UsefulDecoration} {levels : SkillLevels}
variable {packings : List Packing}

theorem capped_of_mem_all {slots : List Nat} (hlevels : levels.Capped t.cap)
    (h : all t useful slots levels = .ok packings) {p : Packing} (hp : p ∈ packings) :
    p.levels.Capped t.cap := by
  obtain ⟨chosen, -, hfilled⟩ := exists_filledBy h hp
  rw [hfilled.levels, SkillLevels.gainAll_eq_raiseAll]
  exact hlevels.raiseAll _

theorem levels_of_mem_all_nil (h : all t useful [] levels = .ok packings) {p : Packing}
    (hp : p ∈ packings) : p.levels = levels := by
  obtain ⟨chosen, -, hfilled⟩ := exists_filledBy h hp
  have hnone : chosen = [] := List.forall₂_nil_right_iff.1 hfilled.fits
  rw [hfilled.levels, hnone]
  rfl

theorem nil_mem_choices_nil : [] ∈ choices t useful [] levels := by
  induction useful with
  | nil => exact mem_choices_nil_iff.2 ⟨rfl, rfl⟩
  | cons u rest ih =>
      exact mem_choices_cons_iff.2 ⟨0, Nat.zero_le _, Nat.zero_le _, [], ih, rfl⟩

theorem empty_mem_all_nil (h : all t useful [] levels = .ok packings) :
    ⟨[], levels⟩ ∈ packings := by
  obtain ⟨-, rfl⟩ := all_eq_ok_iff.1 h
  exact List.mem_map.2 ⟨[], nil_mem_choices_nil, rfl⟩

end Packing

namespace Setting

variable {R : Type} {x : Setting R} {set set' : ArmourSet} {mine theirs : Candidate R}

theorem count_pairedPieces (hset : set.signature.pieces.Capped fun _ => maxPieces)
    (w : Candidate R) (b : BonusId) : (pairedPieces set w).count b =
      min (set.signature.pieces.count b + if w.stats.bonus = some b then 1 else 0) maxPieces := by
  rw [pairedPieces_eq, hset.count_raiseAll, Tally.unitsOf_toList_map_one]

theorem count_pairedLevels (hset : set.signature.levels.Capped x.skills.cap) (w : Candidate R)
    (s : SkillId) : (x.pairedLevels set w).count s =
      min (set.signature.levels.count s + if w.stats.skill = some s then 1 else 0)
        (x.skills.cap s) := by
  rw [pairedLevels_eq, hset.count_raiseAll, Tally.unitsOf_toList_map_one]

theorem capped_pairedLevels (hset : set.signature.levels.Capped x.skills.cap) (w : Candidate R) :
    (x.pairedLevels set w).Capped x.skills.cap := by
  rw [pairedLevels_eq]
  exact hset.raiseAll _

theorem count_pairedPieces_mono (hset : set.signature.pieces.Capped fun _ => maxPieces)
    (hset' : set'.signature.pieces.Capped fun _ => maxPieces)
    (hle : ∀ b, set.signature.pieces.count b ≤ set'.signature.pieces.count b)
    (h : theirs.stats.bonus = none ∨ mine.stats.bonus = theirs.stats.bonus) (b : BonusId) :
    (pairedPieces set theirs).count b ≤ (pairedPieces set' mine).count b := by
  have hb := hle b
  rw [count_pairedPieces hset, count_pairedPieces hset']
  rcases h with hnone | hsame
  · rw [hnone, if_neg (by simp)]
    omega
  · rw [hsame]
    omega

theorem count_pairedLevels_mono (hset : set.signature.levels.Capped x.skills.cap)
    (hset' : set'.signature.levels.Capped x.skills.cap)
    (hle : ∀ s, set.signature.levels.count s ≤ set'.signature.levels.count s)
    (h : theirs.stats.skill = none ∨ mine.stats.skill = theirs.stats.skill) (s : SkillId) :
    (x.pairedLevels set theirs).count s ≤ (x.pairedLevels set' mine).count s := by
  have hs := hle s
  rw [count_pairedLevels hset, count_pairedLevels hset']
  rcases h with hnone | hsame
  · rw [hnone, if_neg (by simp)]
    omega
  · rw [hsame]
    omega

end Setting

end Loadout
