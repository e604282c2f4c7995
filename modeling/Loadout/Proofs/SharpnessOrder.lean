import Loadout.Proofs.ModifierOrder

/-!
# The order of blades

A gauge is described by the hits it has at every tier and above.  A cut takes hits from the top, so
it takes as many from each of these numbers until nothing is left.  All else follows: more levels of
handicraft and a longer blade are never duller, and a sharper blade multiplies raw attack by more
and gives bludgeoner less.
-/

namespace Loadout

namespace Gauge

theorem sumOf_drop_le (hits : List Nat) (tier : Nat) : sumOf (hits.drop tier) ≤ sumOf hits := by
  induction hits generalizing tier with
  | nil => simp
  | cons h rest ih =>
      cases tier with
      | zero => exact Nat.le_refl _
      | succ tier => exact (ih tier).trans (Nat.le_add_left _ _)

theorem sumOf_keepLowest (n : Nat) (hits : List Nat) :
    sumOf (keepLowest n hits) = min n (sumOf hits) := by
  induction hits generalizing n with
  | nil => simp
  | cons h rest ih =>
      rw [keepLowest_cons, sumOf_cons, sumOf_cons, ih]
      omega

/-- What is cut off is missing from every tier up to the last one that is left. -/
theorem sumOf_drop_keepLowest (n tier : Nat) (hits : List Nat) :
    sumOf ((keepLowest n hits).drop tier) = sumOf (hits.drop tier) - (sumOf hits - n) := by
  induction hits generalizing n tier with
  | nil => simp
  | cons h rest ih =>
      cases tier with
      | zero =>
          rw [List.drop_zero, List.drop_zero, sumOf_keepLowest]
          omega
      | succ tier =>
          have hle := sumOf_drop_le rest tier
          rw [keepLowest_cons, List.drop_succ_cons, List.drop_succ_cons, ih, sumOf_cons]
          omega

theorem coversFromTop_iff {mine theirs : List Nat} (hlength : mine.length = theirs.length) :
    coversFromTop mine theirs = true ↔
      ∀ tier, sumOf (theirs.drop tier) ≤ sumOf (mine.drop tier) := by
  induction mine generalizing theirs with
  | nil =>
      cases List.eq_nil_of_length_eq_zero hlength.symm
      simp [coversFromTop]
  | cons a as ih =>
      cases theirs with
      | nil => cases hlength
      | cons b bs =>
          rw [coversFromTop, Bool.and_eq_true, decide_eq_true_iff, ih (Nat.succ.inj hlength)]
          constructor
          · rintro ⟨hall, hrest⟩ tier
            cases tier with
            | zero => exact hall
            | succ tier => exact hrest tier
          · exact fun h => ⟨h 0, fun tier => h (tier + 1)⟩

theorem any_pos_iff {hits : List Nat} : hits.any (0 < ·) = true ↔ 0 < sumOf hits := by
  induction hits with
  | nil => simp
  | cons h rest ih =>
      rw [List.any_cons, Bool.or_eq_true, decide_eq_true_iff, ih, sumOf_cons]
      omega

theorem le_topOf_iff {hits : List Nat} {tier : Nat} (htier : 0 < tier) :
    tier ≤ topOf hits ↔ 0 < sumOf (hits.drop tier) := by
  induction hits generalizing tier with
  | nil =>
      rw [List.drop_nil, topOf, sumOf_nil]
      omega
  | cons h rest ih =>
      obtain ⟨tier, rfl⟩ := Nat.exists_eq_add_one_of_ne_zero htier.ne'
      have hrest := sumOf_drop_le rest tier
      rw [List.drop_succ_cons, topOf]
      split
      next hany =>
        have hpos := any_pos_iff.1 hany
        rcases tier.eq_zero_or_pos with rfl | htier
        · simpa using hpos
        · rw [Nat.add_le_add_iff_right, ih htier]
      next hany =>
        rw [any_pos_iff] at hany
        omega

variable {g g' : Gauge}

/-- The hits at a tier and above. -/
def hitsFrom (g : Gauge) (tier : Nat) : Nat := sumOf (g.hits.drop tier)

theorem hitsFrom_le_total (g : Gauge) (tier : Nat) : g.hitsFrom tier ≤ g.total :=
  sumOf_drop_le g.hits tier

theorem hitsFrom_truncate (g : Gauge) (most tier : Nat) :
    (g.truncate most).hitsFrom tier = g.hitsFrom tier - (g.total - most) :=
  sumOf_drop_keepLowest most tier g.hits

/-- Every missing level of handicraft takes the same number of hits from the top. -/
theorem hitsFrom_withHandicraft (g : Gauge) (level tier : Nat) :
    (g.withHandicraft level).hitsFrom tier =
      g.hitsFrom tier - (maxHandicraft - level) * hitsPerLevel := by
  have hle := hitsFrom_le_total g tier
  rw [withHandicraft, hitsFrom_truncate]
  omega

theorem covers_iff : g.covers g' = true ↔ ∀ tier, g'.hitsFrom tier ≤ g.hitsFrom tier :=
  coversFromTop_iff (g.length_eq.trans g'.length_eq.symm)

theorem covers_refl (g : Gauge) : g.covers g = true := covers_iff.2 fun _ => Nat.le_refl _

theorem covers_trans {g'' : Gauge} (h : g.covers g' = true) (h' : g'.covers g'' = true) :
    g.covers g'' = true :=
  covers_iff.2 fun tier => (covers_iff.1 h' tier).trans (covers_iff.1 h tier)

theorem covers_withHandicraft (g : Gauge) (level : Nat) :
    g.covers (g.withHandicraft level) = true :=
  covers_iff.2 fun tier => by
    rw [hitsFrom_withHandicraft]
    exact Nat.sub_le _ _

theorem withHandicraft_covers (h : g.covers g' = true) {m n : Nat} (hmn : m ≤ n) :
    (g.withHandicraft n).covers (g'.withHandicraft m) = true := by
  rw [covers_iff] at h ⊢
  intro tier
  have hmissing := Nat.mul_le_mul_right hitsPerLevel (Nat.sub_le_sub_left hmn maxHandicraft)
  rw [hitsFrom_withHandicraft, hitsFrom_withHandicraft]
  exact tsub_le_tsub (h tier) hmissing

theorem le_top_iff {tier : Nat} (htier : 0 < tier) : tier ≤ g.top ↔ 0 < g.hitsFrom tier :=
  le_topOf_iff htier

theorem top_le_top (h : g.covers g' = true) : g'.top ≤ g.top := by
  rcases g'.top.eq_zero_or_pos with hzero | hpos
  · exact hzero ▸ Nat.zero_le _
  · have hhits := (le_top_iff hpos).1 le_rfl
    exact (le_top_iff hpos).2 (hhits.trans_le (covers_iff.1 h _))

theorem top_lt (g : Gauge) : g.top < tierCount := by
  by_contra hge
  have hpos : 0 < tierCount := by decide
  have hhits := (le_top_iff hpos).1 (not_lt.1 hge)
  have hnone : g.hits.drop tierCount = [] := List.drop_eq_nil_of_le g.length_eq.le
  rw [hitsFrom, hnone, sumOf_nil] at hhits
  exact Nat.lt_irrefl 0 hhits

end Gauge

theorem Effective.rawSharpness_mono {g g' : Gauge} (h : g.covers g' = true) :
    (rawSharpness g' : Rat) ≤ rawSharpness g := by
  have hrising : Gauge.rawHundredths.Pairwise (· ≤ ·) := by decide
  have hhundredths := Modifiers.getD_mono hrising (Gauge.top_le_top h) g.top_lt
  rw [rawSharpness, rawSharpness, Reckoning.percent_rat, Reckoning.percent_rat]
  gcongr

/-- Whether two weapons both lack a blade, or the second's is nowhere shorter than the first's. -/
def Sharper : Option Gauge → Option Gauge → Prop := Option.Rel fun g g' => g'.covers g = true

namespace Sharper

theorem refl (gauge : Option Gauge) : Sharper gauge gauge := by
  cases gauge with
  | none => exact .none
  | some g => exact .some g.covers_refl

theorem sharpnessFactor_le {low high : Option Gauge} (h : Sharper low high) :
    Effective.sharpnessFactor low ≤ Effective.sharpnessFactor high := by
  cases h with
  | none => exact le_rfl
  | some hcovers => exact Effective.rawSharpness_mono hcovers

/-- A longer blade is left no shorter by no less handicraft, unless only the other one never
changes. -/
theorem gaugeOf {low high : WeaponStats} (h : Sharper low.gauge high.gauge)
    (hconstant : low.constantSharpness = true → high.constantSharpness = true) {m n : Nat}
    (hmn : m ≤ n) : Sharper (Modifiers.gaugeOf low m) (Modifiers.gaugeOf high n) := by
  unfold Modifiers.gaugeOf
  generalize low.gauge = g, high.gauge = g' at h
  cases h with
  | none => exact .none
  | @some g g' hcovers =>
      refine .some ?_
      dsimp only
      by_cases hlow : low.constantSharpness = true
      · rw [if_pos hlow, if_pos (hconstant hlow)]
        exact hcovers
      · rw [if_neg hlow]
        split
        · exact Gauge.covers_trans hcovers (g.covers_withHandicraft m)
        · exact Gauge.withHandicraft_covers hcovers hmn

end Sharper

end Loadout
