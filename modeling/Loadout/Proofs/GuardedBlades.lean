import Loadout.Proofs.SharpnessOrder
import Mathlib.Data.List.Induction

/-!
# Guarded blades

Hits are taken off a gauge once more as a loop from the highest tier down, which carries what is
still to be taken and stops when that is nothing.  Every sum and difference on the way is guarded,
and what a tier loses is cut to the width of a tier first.  No guard strikes, and the loop keeps the
lowest hits.  What is taken is therefore missing from the hits at every tier and above, as far as
there are any, and so the longer of two blades stays the longer one at no less handicraft.
-/

namespace Loadout

/-- A difference of unsigned quantities, if there is one. -/
def Fault.difference (a b : Nat) : Except Fault Nat :=
  if b ≤ a then .ok (a - b) else .error .overflow

namespace Gauge

/-- The hits added up tier by tier, every sum in a word. -/
def guardedSum (hits : List Nat) : Except Fault Nat :=
  hits.foldlM (fun sum h => Fault.word (sum + h)) 0

/-- Takes hits off one tier after the other until nothing is left to take. -/
def takeOff : Nat → List Nat → Except Fault (List Nat)
  | _, [] => .ok []
  | excess, h :: rest =>
      if excess = 0 then .ok (h :: rest)
      else do
        let removed := min h excess
        let kept ← Fault.difference h (removed % (tierMax + 1))
        let excess ← Fault.difference excess removed
        return kept :: (← takeOff excess rest)

def guardedTruncate (g : Gauge) (most : Nat) : Except Fault (List Nat) := do
  let total ← guardedSum g.hits
  return (← takeOff (total - most) g.hits.reverse).reverse

def guardedHandicraft (g : Gauge) (level : Nat) : Except Fault (List Nat) := do
  let missing := maxHandicraft - min level maxHandicraft
  let removed ← Fault.word (missing * hitsPerLevel)
  let total ← guardedSum g.hits
  g.guardedTruncate (total - removed)

section Guards

theorem sumOf_append (hits more : List Nat) : sumOf (hits ++ more) = sumOf hits + sumOf more :=
  List.sum_append

theorem sumOf_le_of_bounded {hits : List Nat} {bound : Nat} (h : ∀ x ∈ hits, x ≤ bound) :
    sumOf hits ≤ hits.length * bound := by
  induction hits with
  | nil => simp
  | cons x rest ih =>
      obtain ⟨hx, hrest⟩ := List.forall_mem_cons.1 h
      rw [sumOf_cons, List.length_cons, Nat.succ_mul, Nat.add_comm]
      exact Nat.add_le_add (ih hrest) hx

theorem total_le_wordMax (g : Gauge) : g.total ≤ Fault.wordMax := by
  have hle := sumOf_le_of_bounded g.bounded
  rw [g.length_eq] at hle
  exact hle.trans (by decide)

/-- The first sums are below the last one, so that no guard strikes if that is a word. -/
theorem guardedSum_eq_ok {hits : List Nat} (h : sumOf hits ≤ Fault.wordMax) :
    guardedSum hits = .ok (sumOf hits) := by
  induction hits using List.reverseRecOn with
  | nil => rfl
  | append_singleton before x ih =>
      rw [sumOf_append, sumOf_cons, sumOf_nil, Nat.add_zero] at h ⊢
      have hbefore : before.foldlM (fun sum h => Fault.word (sum + h)) 0 = .ok (sumOf before) :=
        ih (by omega)
      have hlast : Fault.word (sumOf before + x) = .ok (sumOf before + x) :=
        Fault.word_eq_ok_iff.2 ⟨rfl, h⟩
      rw [guardedSum, List.foldlM_append, hbefore]
      exact SuccessfulRun.bind_eq_ok_iff.2 ⟨_, rfl, SuccessfulRun.bind_eq_ok_iff.2 ⟨_, hlast, rfl⟩⟩

theorem keepLowest_of_sumOf_le {n : Nat} {hits : List Nat} (h : sumOf hits ≤ n) :
    keepLowest n hits = hits := by
  induction hits generalizing n with
  | nil => simp
  | cons x rest ih =>
      rw [sumOf_cons] at h
      rw [keepLowest_cons, Nat.min_eq_right (by omega), ih (by omega)]

/-- The highest tier is left what the others leave of the kept hits. -/
theorem keepLowest_append_singleton (n x : Nat) (hits : List Nat) :
    keepLowest n (hits ++ [x]) = keepLowest n hits ++ [min (n - sumOf hits) x] := by
  induction hits generalizing n with
  | nil => simp
  | cons h rest ih =>
      rw [List.cons_append, keepLowest_cons, keepLowest_cons, ih, sumOf_cons, Nat.sub_sub]
      rfl

/-- Taking the excess over a number off from the top keeps that many of the lowest hits. -/
theorem takeOff_eq_ok {hits : List Nat} (h : ∀ x ∈ hits, x ≤ tierMax) (n : Nat) :
    takeOff (sumOf hits - n) hits.reverse = .ok (keepLowest n hits).reverse := by
  -- the loop starts at the last tier, so the induction takes tiers from the end
  induction hits using List.reverseRecOn with
  | nil => simp [takeOff]
  | append_singleton before x ih =>
      obtain ⟨hbefore, hx⟩ := List.forall_mem_append.1 h
      have hx : x ≤ tierMax := hx x (by simp)
      have hsum : sumOf (before ++ [x]) = sumOf before + x := by simp [sumOf_append]
      rw [hsum, keepLowest_append_singleton, List.reverse_append, List.reverse_append,
        List.reverse_singleton, List.reverse_singleton, List.singleton_append,
        List.singleton_append, takeOff]
      by_cases hexcess : sumOf before + x - n = 0
      · -- nothing is left to take, from this tier or from those below
        have hkept : min (n - sumOf before) x = x := by omega
        rw [if_pos hexcess, hkept, keepLowest_of_sumOf_le (by omega)]
      · have hnarrow : min x (sumOf before + x - n) % (tierMax + 1) =
            min x (sumOf before + x - n) := Nat.mod_eq_of_lt (by omega)
        have hkept : Fault.difference x (min x (sumOf before + x - n)) =
            .ok (min (n - sumOf before) x) := by
          rw [Fault.difference, if_pos (by omega)]
          congr 1
          omega
        have hleft : Fault.difference (sumOf before + x - n) (min x (sumOf before + x - n)) =
            .ok (sumOf before - n) := by
          rw [Fault.difference, if_pos (by omega)]
          congr 1
          omega
        simp only [if_neg hexcess, hnarrow, hkept, hleft, bind, Except.bind, ih hbefore]
        rfl

theorem guardedTruncate_eq_ok (g : Gauge) (most : Nat) :
    g.guardedTruncate most = .ok (g.truncate most).hits := by
  rw [guardedTruncate, guardedSum_eq_ok g.total_le_wordMax]
  change (takeOff (sumOf g.hits - most) g.hits.reverse >>= fun hits => .ok hits.reverse) = _
  rw [takeOff_eq_ok g.bounded]
  exact congrArg Except.ok (List.reverse_reverse _)

theorem guardedHandicraft_eq_ok (g : Gauge) (level : Nat) :
    g.guardedHandicraft level = .ok (g.withHandicraft level).hits := by
  have hmissing : maxHandicraft - min level maxHandicraft = maxHandicraft - level := by omega
  have hword : Fault.word ((maxHandicraft - level) * hitsPerLevel) =
      .ok ((maxHandicraft - level) * hitsPerLevel) := by
    have hle := Nat.mul_le_mul_right hitsPerLevel (Nat.sub_le maxHandicraft level)
    exact Fault.word_eq_ok_iff.2 ⟨rfl, hle.trans (by decide)⟩
  rw [guardedHandicraft, hmissing, hword, guardedSum_eq_ok g.total_le_wordMax]
  exact g.guardedTruncate_eq_ok _

end Guards

/-- Whether a blade is at least as long as another and, as far as its top tier shows, at least as
sharp, both exactly and as doubles have it. -/
structure NoDuller (g g' : Gauge) : Prop where
  covers : g.covers g' = true
  top : g'.top ≤ g.top
  raw : (Effective.rawSharpness g' : Float) ≤ Effective.rawSharpness g
  element : (Effective.elementSharpness g' : Float) ≤ Effective.elementSharpness g
  rawExact : (Effective.rawSharpness g' : Rat) ≤ Effective.rawSharpness g
  elementExact : (Effective.elementSharpness g' : Rat) ≤ Effective.elementSharpness g

theorem float_raw_mono : ∀ high < tierCount, ∀ low ≤ high,
    (Reckoning.percent (rawHundredths.getD low 0) : Float) ≤
      Reckoning.percent (rawHundredths.getD high 0) := by
  decide +kernel

theorem float_element_mono : ∀ high < tierCount, ∀ low ≤ high,
    (Reckoning.ofInt (elementTenThousandths.getD low 0) / Reckoning.ofInt 10000 : Float) ≤
      Reckoning.ofInt (elementTenThousandths.getD high 0) / Reckoning.ofInt 10000 := by
  decide +kernel

theorem elementSharpness_mono {g g' : Gauge} (h : g.covers g' = true) :
    (Effective.elementSharpness g' : Rat) ≤ Effective.elementSharpness g := by
  have hrising : elementTenThousandths.Pairwise (· ≤ ·) := by decide
  have hparts := Modifiers.getD_mono hrising (top_le_top h) g.top_lt
  rw [Effective.elementSharpness, Effective.elementSharpness, Reckoning.ofInt_rat,
    Reckoning.ofInt_rat, Reckoning.ofInt_rat]
  gcongr

theorem noDuller_of_covers {g g' : Gauge} (h : g.covers g' = true) : NoDuller g g' where
  covers := h
  top := top_le_top h
  raw := float_raw_mono g.top g.top_lt g'.top (top_le_top h)
  element := float_element_mono g.top g.top_lt g'.top (top_le_top h)
  rawExact := Effective.rawSharpness_mono h
  elementExact := elementSharpness_mono h

/-- A cut takes what it is asked for from the hits at every tier and above, without a guard on the
way being struck; so less handicraft never makes up for a shorter blade. -/
theorem handicraft_keeps_longer :
    (∀ (g : Gauge) (most tier : Nat), g.guardedTruncate most = .ok (g.truncate most).hits ∧
        (g.truncate most).hitsFrom tier = g.hitsFrom tier - (g.total - most)) ∧
      (∀ (g : Gauge) (level tier : Nat),
        g.guardedHandicraft level = .ok (g.withHandicraft level).hits ∧
          (g.withHandicraft level).hitsFrom tier =
            g.hitsFrom tier - (maxHandicraft - level) * hitsPerLevel) ∧
      ∀ (g g' : Gauge) (level level' : Nat), g.covers g' = true → level' ≤ level →
        NoDuller (g.withHandicraft level) (g'.withHandicraft level') := by
  refine ⟨?_, ?_, ?_⟩
  · exact fun g most tier => ⟨g.guardedTruncate_eq_ok most, g.hitsFrom_truncate most tier⟩
  · exact fun g level tier =>
      ⟨g.guardedHandicraft_eq_ok level, g.hitsFrom_withHandicraft level tier⟩
  · exact fun g g' level level' h hlevel => noDuller_of_covers (withHandicraft_covers h hlevel)

/-- Some white and a little purple. -/
def longBlade : Gauge := ⟨[10, 10, 10, 0, 0, 60, 10], by decide, by decide⟩

/-- As long up to white, without purple. -/
def shortBlade : Gauge := ⟨[10, 10, 10, 0, 0, 60, 0], by decide, by decide⟩

theorem handicraft_keeps_longer_white :
    longBlade.covers shortBlade = true ∧
      NoDuller (longBlade.withHandicraft 4) (shortBlade.withHandicraft 1) ∧
      longBlade.guardedHandicraft 4 = .ok [10, 10, 10, 0, 0, 60, 0] ∧
      (shortBlade.withHandicraft 1).hitsFrom 5 = 20 := by
  obtain ⟨-, hhandicraft, hlonger⟩ := handicraft_keeps_longer
  have hcovers : longBlade.covers shortBlade = true := by decide
  exact ⟨hcovers, hlonger _ _ 4 1 hcovers (by decide), (hhandicraft longBlade 4 0).1,
    (hhandicraft shortBlade 1 5).2⟩

end Gauge

end Loadout
