import Loadout.Levels
import Loadout.OrderedMap
import Mathlib.Algebra.BigOperators.Group.List.Basic
import Mathlib.Algebra.GroupWithZero.Nat
import Mathlib.Data.List.Perm.Basic
import Mathlib.Tactic.Common

/-!
# Capped sums

Levels and pieces are added up one grant at a time, each addition cut at the cap of its key, and at
many places: over the skills of a piece, over decorations, over the pieces of a set.  As long as
nothing starts above its cap, the cuts on the way make no difference: a key ends with the plain sum
of all units that it was given, cut once.  So the order of the grants, their grouping and the moment
at which irrelevant keys are left out do not matter either.
-/

namespace Loadout

open Std

namespace OrderedMap

variable {κ : Type} [Ord κ] [LawfulEqOrd κ] [DecidableEq κ]

theorem sum_key_eq_lookup {l : List (κ × Nat)} (k : κ)
    (h : l.Pairwise fun a b => compare a.1 b.1 = .lt) :
    (l.map fun e => if e.1 = k then e.2 else 0).sum = (lookup k l).getD 0 := by
  induction l with
  | nil => simp
  | cons e rest ih =>
      obtain ⟨j, n⟩ := e
      obtain ⟨hj, hrest⟩ := List.pairwise_cons.1 h
      have htail := ih hrest
      rw [List.map_cons, List.sum_cons, lookup_cons, htail]
      by_cases hjk : j = k
      · subst hjk
        have hnone : lookup j rest = none := lookup_eq_none_of_lt hj
        simp [hnone]
      · have hkj : compare k j ≠ .eq := fun heq => hjk (LawfulEqOrd.eq_of_compare heq).symm
        simp [hjk, hkj]

end OrderedMap

namespace Tally

section Units

variable {κ : Type} [DecidableEq κ]

/-- All units that a list gives a key. -/
def unitsOf (l : List (κ × Nat)) (k : κ) : Nat := (l.map fun e => if e.1 = k then e.2 else 0).sum

@[simp] theorem unitsOf_nil (k : κ) : unitsOf [] k = 0 := rfl

@[simp] theorem unitsOf_cons (e : κ × Nat) (l : List (κ × Nat)) (k : κ) :
    unitsOf (e :: l) k = (if e.1 = k then e.2 else 0) + unitsOf l k := by
  simp [unitsOf]

@[simp] theorem unitsOf_append (l m : List (κ × Nat)) (k : κ) :
    unitsOf (l ++ m) k = unitsOf l k + unitsOf m k := by
  simp [unitsOf]

theorem unitsOf_filter (p : κ → Bool) (l : List (κ × Nat)) (k : κ) :
    unitsOf (l.filter fun e => p e.1) k = if p k then unitsOf l k else 0 := by
  induction l with
  | nil => simp
  | cons e rest ih =>
      by_cases hek : e.1 = k
      · subst hek
        by_cases hp : p e.1 = true
        · simp [hp, ih]
        · simp [hp, ih]
      · by_cases hp : p e.1 = true
        · simp [hp, hek, ih]
        · simp [hp, hek, ih]

theorem unitsOf_eq_zero {l : List (κ × Nat)} {k : κ} (h : k ∉ l.map (·.1)) : unitsOf l k = 0 := by
  induction l with
  | nil => rfl
  | cons e rest ih =>
      obtain ⟨he, hrest⟩ := not_or.1 (mt List.mem_cons.2 h)
      rw [unitsOf_cons, ih hrest, if_neg (Ne.symm he)]

theorem unitsOf_eq_of_mem {l : List (κ × Nat)} (hdistinct : (l.map (·.1)).Nodup) {e : κ × Nat}
    (he : e ∈ l) : unitsOf l e.1 = e.2 := by
  induction l with
  | nil => cases he
  | cons g rest ih =>
      obtain ⟨hg, hrest⟩ := List.nodup_cons.1 hdistinct
      rcases List.mem_cons.1 he with rfl | he
      · rw [unitsOf_cons, unitsOf_eq_zero hg]
        simp
      · have hne : g.1 ≠ e.1 := fun heq => hg (List.mem_map.2 ⟨e, he, heq.symm⟩)
        rw [unitsOf_cons, if_neg hne, ih hrest he, Nat.zero_add]

theorem unitsOf_flatMap {α : Type} (f : α → List (κ × Nat)) (as : List α) (k : κ) :
    unitsOf (as.flatMap f) k = (as.map fun a => unitsOf (f a) k).sum := by
  induction as with
  | nil => rfl
  | cons a rest ih => simp [ih]

theorem unitsOf_map_one (keys : List κ) (k : κ) : unitsOf (keys.map (·, 1)) k = keys.count k := by
  induction keys with
  | nil => rfl
  | cons j rest ih =>
      rw [List.map_cons, unitsOf_cons, ih, List.count_cons]
      simp only [beq_iff_eq]
      omega

theorem unitsOf_toList_map_one (key : Option κ) (k : κ) :
    unitsOf (key.toList.map (·, 1)) k = if key = some k then 1 else 0 := by
  cases key <;> simp

theorem unitsOf_toList [Ord κ] [LawfulEqOrd κ] (t : Tally κ) (k : κ) :
    unitsOf t.toList k = t.count k :=
  OrderedMap.sum_key_eq_lookup k t.counts.ascending

end Units

section Adding

variable {κ : Type} [Ord κ] [TransOrd κ] [LawfulEqOrd κ]

/-- Adds the units of a list one entry after the other, each key up to its cap. -/
def raiseAll (cap : κ → Nat) (t : Tally κ) (l : List (κ × Nat)) : Tally κ :=
  l.foldl (fun t e => t.raise (cap e.1) e.1 e.2) t

/-- The units of a list, each key cut at its cap. -/
def collect (cap : κ → Nat) (l : List (κ × Nat)) : Tally κ := raiseAll cap ∅ l

theorem merge_eq_raiseAll (cap : κ → Nat) (a b : Tally κ) :
    merge cap a b = raiseAll cap a b.toList := rfl

theorem raiseAll_append (cap : κ → Nat) (t : Tally κ) (l m : List (κ × Nat)) :
    raiseAll cap t (l ++ m) = raiseAll cap (raiseAll cap t l) m := List.foldl_append

theorem raiseAll_collect (cap : κ → Nat) (l m : List (κ × Nat)) :
    raiseAll cap (collect cap l) m = collect cap (l ++ m) := (raiseAll_append cap ∅ l m).symm

end Adding

/-- Whether no key has more units than its cap. -/
def Capped {κ : Type} [Ord κ] (cap : κ → Nat) (t : Tally κ) : Prop := ∀ k, t.count k ≤ cap k

theorem capped_empty {κ : Type} [Ord κ] (cap : κ → Nat) : Capped cap (∅ : Tally κ) := by
  intro k
  simp

theorem capped_iff {κ : Type} [Ord κ] [LawfulEqOrd κ] {cap : κ → Nat} {t : Tally κ} :
    t.Capped cap ↔ ∀ e ∈ t.toList, e.2 ≤ cap e.1 := by
  constructor
  · rintro h ⟨k, n⟩ he
    obtain ⟨rfl, -⟩ := mem_toList_iff.1 he
    exact h k
  · intro h k
    rcases (t.count k).eq_zero_or_pos with hzero | hpos
    · exact hzero ▸ Nat.zero_le _
    · exact h (k, t.count k) (mem_toList_iff.2 ⟨rfl, hpos⟩)

theorem Capped.keep {κ : Type} [Ord κ] [LawfulEqOrd κ] {cap : κ → Nat} {t : Tally κ}
    (h : t.Capped cap) (p : κ → Bool) : (t.keep p).Capped cap := by
  intro k
  have hk := h k
  rw [count_keep]
  split <;> omega

section Caps

variable {κ : Type} [Ord κ] [TransOrd κ] [LawfulEqOrd κ] [DecidableEq κ]
variable {cap : κ → Nat} {t a b : Tally κ} {l m : List (κ × Nat)}

theorem Capped.count_raise (h : t.Capped cap) (j : κ) (n : Nat) (k : κ) :
    (t.raise (cap j) j n).count k = min (t.count k + if j = k then n else 0) (cap k) := by
  have hk := h k
  rw [Tally.count_raise]
  by_cases hjk : j = k
  · subst hjk
    by_cases hn : n = 0
    · simp [hn, hk]
    · simp [hn]
  · have hkj : k ≠ j := fun heq => hjk heq.symm
    simp [hjk, hkj, hk]

theorem Capped.raise (h : t.Capped cap) (j : κ) (n : Nat) : (t.raise (cap j) j n).Capped cap := by
  intro k
  rw [h.count_raise]
  exact Nat.min_le_right _ _

/-- The cuts on the way make no difference: the sum is cut once. -/
theorem Capped.count_raiseAll (h : t.Capped cap) (l : List (κ × Nat)) (k : κ) :
    (raiseAll cap t l).count k = min (t.count k + unitsOf l k) (cap k) := by
  induction l generalizing t with
  | nil =>
      have hk := h k
      simp [raiseAll, hk]
  | cons e rest ih =>
      have hstep := h.count_raise e.1 e.2 k
      have hrest := ih (h.raise e.1 e.2)
      rw [hstep] at hrest
      simp only [raiseAll, List.foldl_cons] at hrest ⊢
      rw [hrest, unitsOf_cons]
      omega

theorem Capped.raiseAll (h : t.Capped cap) (l : List (κ × Nat)) :
    (raiseAll cap t l).Capped cap := by
  intro k
  rw [h.count_raiseAll]
  exact Nat.min_le_right _ _

theorem count_collect (cap : κ → Nat) (l : List (κ × Nat)) (k : κ) :
    (collect cap l).count k = min (unitsOf l k) (cap k) := by
  have h := (capped_empty cap).count_raiseAll l k
  simpa [collect] using h

theorem capped_collect (cap : κ → Nat) (l : List (κ × Nat)) : (collect cap l).Capped cap :=
  (capped_empty cap).raiseAll l

theorem collect_congr (h : ∀ k, unitsOf l k = unitsOf m k) : collect cap l = collect cap m := by
  apply ext_count
  intro k
  rw [count_collect, count_collect, h k]

theorem collect_perm (h : l.Perm m) : collect cap l = collect cap m := by
  apply collect_congr
  intro k
  exact (h.map _).sum_eq

theorem Capped.count_merge (h : a.Capped cap) (b : Tally κ) (k : κ) :
    (merge cap a b).count k = min (a.count k + b.count k) (cap k) := by
  rw [merge_eq_raiseAll, h.count_raiseAll, unitsOf_toList]

theorem Capped.merge (h : a.Capped cap) (b : Tally κ) : (merge cap a b).Capped cap :=
  h.raiseAll b.toList

theorem merge_collect (cap : κ → Nat) (l m : List (κ × Nat)) :
    merge cap (collect cap l) (collect cap m) = collect cap (l ++ m) := by
  apply ext_count
  intro k
  rw [(capped_collect cap l).count_merge, count_collect, count_collect, count_collect,
    unitsOf_append]
  omega

/-- Leaving keys out commutes with collecting. -/
theorem keep_collect (cap : κ → Nat) (p : κ → Bool) (l : List (κ × Nat)) :
    (collect cap l).keep p = collect cap (l.filter fun e => p e.1) := by
  apply ext_count
  intro k
  rw [count_keep, count_collect, count_collect, unitsOf_filter]
  cases p k <;> simp

/-- Merging never loses to merging less. -/
theorem Capped.count_merge_mono {a' b' : Tally κ} (ha : a.Capped cap) (ha' : a'.Capped cap)
    (hle : ∀ k, a.count k ≤ a'.count k) (hle' : ∀ k, b.count k ≤ b'.count k) (k : κ) :
    (Tally.merge cap a b).count k ≤ (Tally.merge cap a' b').count k := by
  have hk := hle k
  have hk' := hle' k
  rw [ha.count_merge, ha'.count_merge]
  omega

end Caps

end Tally

namespace SkillLevels

theorem gainAll_eq_raiseAll (t : SkillTable) (levels : SkillLevels)
    (grants : List (SkillId × Nat)) :
    gainAll t levels grants = Tally.raiseAll t.cap levels grants := rfl

theorem gainAll_empty (t : SkillTable) (grants : List (SkillId × Nat)) :
    gainAll t ∅ grants = Tally.collect t.cap grants := rfl

theorem gain_eq_raiseAll (t : SkillTable) (levels : SkillLevels) (s : SkillId) (n : Nat) :
    gain t levels s n = Tally.raiseAll t.cap levels [(s, n)] := rfl

theorem merge_eq (t : SkillTable) (a b : SkillLevels) : merge t a b = Tally.merge t.cap a b := rfl

end SkillLevels

namespace SetPieces

theorem ofCounts_eq_collect (counts : List (BonusId × Nat)) :
    ofCounts counts = Tally.collect (fun _ => maxPieces) counts := rfl

theorem wear_eq_raiseAll (pieces : SetPieces) (b : BonusId) (n : Nat) :
    pieces.wear b n = Tally.raiseAll (fun _ => maxPieces) pieces [(b, n)] := rfl

theorem merge_eq (a b : SetPieces) : merge a b = Tally.merge (fun _ => maxPieces) a b := rfl

end SetPieces

end Loadout
