import Loadout.Damage.Effective
import Loadout.Proofs.LinearReckoning
import Loadout.Proofs.SuccessfulRun
import Mathlib.Algebra.Order.Field.Basic
import Mathlib.Tactic.GCongr
import Mathlib.Tactic.Linarith
import Mathlib.Tactic.NormNum
import Mathlib.Tactic.Positivity
import Mathlib.Tactic.Ring

/-!
# The order of effective attack

Reckoned exactly, effective raw attack grows with each of the numbers it depends on.  Factors on raw
attack may be negative; the product is then rounded to nothing, whatever it is a product of.
-/

namespace Loadout

theorem wordOfRat_mono {x y : Rat} (h : x ≤ y) : wordOfRat x ≤ wordOfRat y := by
  have hfloor : (x + 1 / 2).floor ≤ (y + 1 / 2).floor := Rat.floor_monotone (by gcongr)
  exact min_le_min_right _ (Int.toNat_le_toNat hfloor)

theorem wordOfRat_of_nonpos {x : Rat} (h : x ≤ 0) : wordOfRat x = 0 := by
  have hfloor : (x + 1 / 2).floor < 1 := Rat.floor_lt_iff.2 (by push_cast; linarith)
  have hzero : (x + 1 / 2).floor.toNat = 0 := Int.toNat_eq_zero.2 (Int.lt_add_one_iff.1 hfloor)
  rw [wordOfRat, hzero, Nat.zero_min]

/-- Multiplying by a common factor keeps the order of what is not negative, if only after rounding:
a negative factor leaves nothing. -/
theorem wordOfRat_mul_mono {x y : Rat} (factor : Rat) (hx : 0 ≤ x) (h : x ≤ y) :
    wordOfRat (x * factor) ≤ wordOfRat (y * factor) := by
  rcases le_total 0 factor with hfactor | hfactor
  · exact wordOfRat_mono (mul_le_mul_of_nonneg_right h hfactor)
  · rw [wordOfRat_of_nonpos (mul_nonpos_of_nonneg_of_nonpos hx hfactor)]
    exact Nat.zero_le _

namespace Reckoning

@[simp] theorem ofInt_rat (n : Int) : (ofInt n : Rat) = n := rfl

@[simp] theorem one_rat : (one : Rat) = 1 := rfl

@[simp] theorem percent_rat (n : Int) : (percent n : Rat) = n / 100 := rfl

end Reckoning

namespace Effective

theorem mixed_eq (factor share : Rat) : mixed factor share = 1 + (factor - 1) * share := by
  rw [mixed, Reckoning.one_rat]
  ring

theorem affinityFactor_of_neg {affinity : Int} (h : affinity < 0) (critical : Rat) :
    affinityFactor affinity critical = 1 - (min (-affinity) 100 : Int) / 400 := by
  rw [affinityFactor, if_pos h, mixed_eq]
  simp only [feeblePercent, Reckoning.percent_rat]
  ring

theorem affinityFactor_of_nonneg {affinity : Int} (h : 0 ≤ affinity) (critical : Rat) :
    affinityFactor affinity critical = 1 + (critical - 1) * ((min affinity 100 : Int) / 100) := by
  rw [affinityFactor, if_neg (not_lt.2 h), mixed_eq, Reckoning.percent_rat]

/-- Affinity takes away at most a quarter. -/
theorem affinityFactor_pos {affinity : Int} {critical : Rat} (h : 1 ≤ critical) :
    0 < affinityFactor affinity critical := by
  rcases lt_or_ge affinity 0 with hneg | hnonneg
  · have hshare : ((min (-affinity) 100 : Int) : Rat) ≤ 100 := by
      exact_mod_cast min_le_right (-affinity) 100
    rw [affinityFactor_of_neg hneg]
    linarith
  · have hshare : (0 : Rat) ≤ (min affinity 100 : Int) := by
      exact_mod_cast le_min hnonneg (by norm_num)
    have hgain : 0 ≤ (critical - 1) * ((min affinity 100 : Int) / 100) :=
      mul_nonneg (sub_nonneg.2 h) (by positivity)
    rw [affinityFactor_of_nonneg hnonneg]
    linarith

/-- More affinity and stronger critical hits are never worse. -/
theorem affinityFactor_mono {a b : Int} {critical critical' : Rat} (hab : a ≤ b)
    (hcritical : 1 ≤ critical) (h : critical ≤ critical') :
    affinityFactor a critical ≤ affinityFactor b critical' := by
  have hgain : ∀ n : Int, 0 ≤ n → (0 : Rat) ≤ (min n 100 : Int) / 100 := fun n hn => by
    have hshare : (0 : Rat) ≤ (min n 100 : Int) := by exact_mod_cast le_min hn (by norm_num)
    positivity
  rcases lt_or_ge b 0 with hb | hb
  · rw [affinityFactor_of_neg (hab.trans_lt hb), affinityFactor_of_neg hb]
    have hshare : ((min (-b) 100 : Int) : Rat) ≤ (min (-a) 100 : Int) := by
      exact_mod_cast min_le_min_right 100 (neg_le_neg hab)
    linarith
  · have hone : 1 ≤ affinityFactor b critical' := by
      rw [affinityFactor_of_nonneg hb]
      have := mul_nonneg (sub_nonneg.2 (hcritical.trans h)) (hgain b hb)
      linarith
    rcases lt_or_ge a 0 with ha | ha
    · -- one side loses from feeble hits, the other one gains from critical hits
      have hshare : (0 : Rat) ≤ (min (-a) 100 : Int) := by
        exact_mod_cast le_min (neg_nonneg.2 ha.le) (by norm_num)
      refine le_trans ?_ hone
      rw [affinityFactor_of_neg ha]
      linarith
    · have hshare : ((min a 100 : Int) : Rat) / 100 ≤ (min b 100 : Int) / 100 := by
        have : ((min a 100 : Int) : Rat) ≤ (min b 100 : Int) := by
          exact_mod_cast min_le_min_right 100 hab
        linarith
      rw [affinityFactor_of_nonneg ha, affinityFactor_of_nonneg hb]
      have := mul_le_mul (sub_le_sub_right h 1) hshare (hgain a ha)
        (sub_nonneg.2 (hcritical.trans h))
      linarith

/-- The factor of the sharpness that is left, if there is any blade. -/
def sharpnessFactor (gauge : Option Gauge) : Rat := (gauge.map rawSharpness).getD 1

theorem rawSharpness_nonneg (g : Gauge) : (0 : Rat) ≤ rawSharpness g := by
  rw [rawSharpness, Reckoning.percent_rat]
  positivity

theorem sharpnessFactor_nonneg (gauge : Option Gauge) : 0 ≤ sharpnessFactor gauge := by
  cases gauge with
  | none => exact zero_le_one
  | some g => exact rawSharpness_nonneg g

/-- Raw attack before the cut, without regard to words. -/
def uncut (a : AttackInputs Rat) : Nat :=
  wordOfRat ((a.raw + a.bludgeonerRaw : Nat) * a.baseFactor) + a.addedRaw

theorem raw_of_ofInputs {a : AttackInputs Rat} {e : Effective Rat} (h : ofInputs a = .ok e) :
    e.raw = (min (uncut a) (a.raw * capMultiple) : Nat) *
      affinityFactor (a.affinity + a.addedAffinity) a.criticalFactor * sharpnessFactor a.gauge *
      a.frostcraftFactor := by
  obtain ⟨affinity, haffinity, h⟩ := SuccessfulRun.bind_eq_ok_iff.1 h
  obtain ⟨cap, hcap, h⟩ := SuccessfulRun.bind_eq_ok_iff.1 h
  obtain ⟨raw, hraw, h⟩ := SuccessfulRun.bind_eq_ok_iff.1 h
  obtain ⟨element, -, h⟩ := SuccessfulRun.bind_eq_ok_iff.1 h
  obtain ⟨base, hbase, hraw⟩ := SuccessfulRun.bind_eq_ok_iff.1 hraw
  obtain ⟨rfl, -⟩ := Fault.signed_eq_ok_iff.1 haffinity
  obtain ⟨rfl, -⟩ := Fault.word_eq_ok_iff.1 hcap
  obtain ⟨rfl, -⟩ := Fault.word_eq_ok_iff.1 hbase
  obtain ⟨rfl, -⟩ := Fault.word_eq_ok_iff.1 hraw
  cases h
  have hcut : (Reckoning.ofInt (min (uncut a : Int) (a.raw * capMultiple : Nat)) : Rat) =
      (min (uncut a) (a.raw * capMultiple) : Nat) := by
    rw [Reckoning.ofInt_rat, ← Nat.cast_min, Int.cast_natCast]
  rw [← hcut]
  rfl

/-- Whether no number on which raw attack depends is larger for the first of two. -/
structure NoStronger (a b : AttackInputs Rat) : Prop where
  raw : a.raw ≤ b.raw
  uncut : uncut a ≤ uncut b
  affinity : a.affinity + a.addedAffinity ≤ b.affinity + b.addedAffinity
  critical_ge_one : 1 ≤ a.criticalFactor
  critical : a.criticalFactor ≤ b.criticalFactor
  sharpness : sharpnessFactor a.gauge ≤ sharpnessFactor b.gauge
  frostcraft_nonneg : 0 ≤ a.frostcraftFactor
  frostcraft : a.frostcraftFactor ≤ b.frostcraftFactor

theorem NoStronger.raw_le {a b : AttackInputs Rat} (h : NoStronger a b) {e f : Effective Rat}
    (he : ofInputs a = .ok e) (hf : ofInputs b = .ok f) : e.raw ≤ f.raw := by
  have hcut : (min (Effective.uncut a) (a.raw * capMultiple) : Nat) ≤
      min (Effective.uncut b) (b.raw * capMultiple) :=
    min_le_min h.uncut (Nat.mul_le_mul_right _ h.raw)
  have haffinity := affinityFactor_mono h.affinity h.critical_ge_one h.critical
  have hpos : 0 ≤ affinityFactor (a.affinity + a.addedAffinity) a.criticalFactor :=
    (affinityFactor_pos h.critical_ge_one).le
  have hpos' := hpos.trans haffinity
  rw [raw_of_ofInputs he, raw_of_ofInputs hf]
  gcongr
  · exact h.frostcraft_nonneg
  · exact mul_nonneg (mul_nonneg (Nat.cast_nonneg _) hpos') (sharpnessFactor_nonneg _)
  · exact sharpnessFactor_nonneg _
  · exact h.sharpness
  · exact h.frostcraft

end Effective

end Loadout
