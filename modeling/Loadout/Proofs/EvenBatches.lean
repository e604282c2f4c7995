import Loadout.Search.Batches
import Mathlib.Data.List.Chain
import Mathlib.Data.List.Range
import Mathlib.Order.Monotone.Basic
import Mathlib.Tactic.Common

/-!
# Even batches

Batches are dealt out one after the other, each from where the last one ended, and the first ones
get one item more as long as the remainder of the division lasts.  Where a batch begins can be told
from its number alone, and the last one ends with the last item.  So the batches cut the items into
consecutive parts: no item is left out and none is dealt out twice.
-/

namespace Loadout

/-- How many items a batch gets: an equal share, and one more while the remainder lasts. -/
def batchSize (total batches index : Nat) : Nat :=
  total / batches + if index < total % batches then 1 else 0

/-- The ranges dealt out so far, and where the next one begins. -/
structure Deal where
  ranges : List (Nat × Nat)
  start : Nat

def Deal.next (total batches : Nat) (d : Deal) (index : Nat) : Deal :=
  let stop := d.start + batchSize total batches index
  ⟨d.ranges ++ [(d.start, stop)], stop⟩

/-- The ranges as they are dealt out one after the other. -/
def dealtRanges (total batches : Nat) : List (Nat × Nat) :=
  if total = 0 ∨ batches = 0 then []
  else
    let used := min batches total
    ((List.range used).foldl (Deal.next total used) ⟨[], 0⟩).ranges

/-- Whether ranges cut items into consecutive parts, none of them empty, as equal in size as
possible and the larger ones first. -/
structure CutsEvenly (total : Nat) (ranges : List (Nat × Nat)) : Prop where
  nonempty : ∀ r ∈ ranges, r.1 < r.2
  within : ∀ r ∈ ranges, r.2 ≤ total
  first : ∀ r ∈ ranges.head?, r.1 = 0
  adjoining : ranges.IsChain fun r s => r.2 = s.1
  last : ∀ r ∈ ranges.getLast?, r.2 = total
  descending : ranges.Pairwise fun r s => s.2 - s.1 ≤ r.2 - r.1
  even : ∀ r ∈ ranges, ∀ s ∈ ranges, r.2 - r.1 ≤ s.2 - s.1 + 1

section Sizes

variable {total batches : Nat}

theorem batchSize_antitone {i j : Nat} (h : i ≤ j) :
    batchSize total batches j ≤ batchSize total batches i := by
  unfold batchSize
  split <;> split <;> omega

theorem batchSize_le_add_one (i j : Nat) :
    batchSize total batches i ≤ batchSize total batches j + 1 := by
  unfold batchSize
  split <;> split <;> omega

theorem batchSize_pos (hbatches : 0 < batches) (h : batches ≤ total) (i : Nat) :
    0 < batchSize total batches i := by
  have hshare : 0 < total / batches := Nat.div_pos h hbatches
  unfold batchSize
  omega

end Sizes

section Starts

theorem batchStart_zero (total batches : Nat) : batchStart total batches 0 = 0 := by
  simp [batchStart]

theorem batchStart_succ (total batches index : Nat) :
    batchStart total batches (index + 1) =
      batchStart total batches index + batchSize total batches index := by
  unfold batchStart batchSize
  rw [Nat.succ_mul]
  split <;> omega

theorem batchStart_mono (total batches : Nat) : Monotone (batchStart total batches) := by
  refine monotone_nat_of_le_succ fun index => ?_
  rw [batchStart_succ]
  exact Nat.le_add_right _ _

theorem batchStart_self {total batches : Nat} (h : 0 < batches) :
    batchStart total batches batches = total := by
  have hrest : total % batches ≤ batches := (Nat.mod_lt total h).le
  rw [batchStart, min_eq_right hrest, Nat.div_add_mod]

/-- A range ends where the next one begins, so its width is what its batch gets. -/
theorem batchStart_succ_sub (total batches index : Nat) :
    batchStart total batches (index + 1) - batchStart total batches index =
      batchSize total batches index := by
  rw [batchStart_succ, Nat.add_sub_cancel_left]

/-- Starts that rise from zero have every smaller number between two of them, and only once. -/
theorem existsUnique_between {starts : Nat → Nat} (hzero : starts 0 = 0) (hmono : Monotone starts)
    {n i : Nat} (hi : i < starts n) :
    ∃! j, j < n ∧ starts j ≤ i ∧ i < starts (j + 1) := by
  have hexists : ∃ j < n, starts j ≤ i ∧ i < starts (j + 1) := by
    induction n with
    | zero => omega
    | succ n ih =>
        by_cases hlast : i < starts n
        · obtain ⟨j, hj, hbetween⟩ := ih hlast
          exact ⟨j, by omega, hbetween⟩
        · exact ⟨n, by omega, by omega, hi⟩
  have honce : ∀ j k, i < starts (j + 1) → starts k ≤ i → k ≤ j := by
    intro j k hj hk
    by_contra hlt
    have hle : starts (j + 1) ≤ starts k := hmono (by omega)
    omega
  obtain ⟨j, hj, hstart, hstop⟩ := hexists
  refine ⟨j, ⟨hj, hstart, hstop⟩, ?_⟩
  rintro k ⟨-, hstart', hstop'⟩
  exact le_antisymm (honce j k hstop hstart') (honce k j hstop' hstart)

end Starts

section Ranges

variable {total batches : Nat}

theorem mem_batchRanges {r : Nat × Nat} :
    r ∈ batchRanges total batches ↔
      ∃ i < min batches total, (batchStart total (min batches total) i,
        batchStart total (min batches total) (i + 1)) = r := by
  simp [batchRanges]

theorem length_batchRanges (total batches : Nat) :
    (batchRanges total batches).length = min total batches := by
  simp [batchRanges, Nat.min_comm]

/-- After some of the batches, what has been dealt out are their ranges. -/
theorem foldl_next (total batches count : Nat) :
    (List.range count).foldl (Deal.next total batches) ⟨[], 0⟩ =
      ⟨(List.range count).map fun i =>
        (batchStart total batches i, batchStart total batches (i + 1)),
        batchStart total batches count⟩ := by
  induction count with
  | zero => simp [batchStart_zero]
  | succ count ih =>
      rw [List.range_succ, List.foldl_append, ih, List.map_append]
      simp only [List.foldl_cons, List.foldl_nil, List.map_cons, List.map_nil, Deal.next,
        batchStart_succ]

theorem dealtRanges_eq_batchRanges (total batches : Nat) :
    dealtRanges total batches = batchRanges total batches := by
  unfold dealtRanges
  split
  next hnone =>
    have hused : min batches total = 0 := by omega
    simp [batchRanges, hused]
  next => exact congrArg Deal.ranges (foldl_next total _ _)

theorem cutsEvenly_batchRanges (total batches : Nat) :
    CutsEvenly total (batchRanges total batches) where
  nonempty := by
    intro r hr
    obtain ⟨i, hi, rfl⟩ := mem_batchRanges.1 hr
    have hpos := batchSize_pos (Nat.zero_lt_of_lt hi) (Nat.min_le_right batches total) i
    rw [batchStart_succ]
    exact Nat.lt_add_of_pos_right hpos
  within := by
    intro r hr
    obtain ⟨i, hi, rfl⟩ := mem_batchRanges.1 hr
    calc batchStart total (min batches total) (i + 1)
        ≤ batchStart total (min batches total) (min batches total) :=
          batchStart_mono total _ (Nat.succ_le_of_lt hi)
      _ = total := batchStart_self (Nat.zero_lt_of_lt hi)
  first := by
    intro r hr
    rw [batchRanges, List.head?_map, List.head?_range] at hr
    split at hr
    next => cases hr
    next =>
      cases hr
      exact batchStart_zero _ _
  adjoining := by
    rw [batchRanges, List.isChain_map, List.isChain_range]
    exact fun i _ => rfl
  last := by
    intro r hr
    rw [batchRanges, List.getLast?_map, List.getLast?_range] at hr
    split at hr
    next => cases hr
    next hused =>
      cases hr
      have hpos : 0 < min batches total := Nat.pos_of_ne_zero hused
      simp only [Nat.sub_add_cancel hpos]
      exact batchStart_self hpos
  descending := by
    rw [batchRanges, List.pairwise_map]
    refine List.pairwise_lt_range.imp fun {i j} hij => ?_
    simp only [batchStart_succ_sub]
    exact batchSize_antitone hij.le
  even := by
    intro r hr s hs
    obtain ⟨i, -, rfl⟩ := mem_batchRanges.1 hr
    obtain ⟨j, -, rfl⟩ := mem_batchRanges.1 hs
    simp only [batchStart_succ_sub]
    exact batchSize_le_add_one i j

theorem existsUnique_batchRanges (hbatches : 0 < batches) {i : Nat} (hi : i < total) :
    ∃! r, r ∈ batchRanges total batches ∧ r.1 ≤ i ∧ i < r.2 := by
  have hused : 0 < min batches total := by omega
  have hlast : i < batchStart total (min batches total) (min batches total) :=
    hi.trans_eq (batchStart_self hused).symm
  obtain ⟨j, ⟨hj, hstart, hstop⟩, honce⟩ :=
    existsUnique_between (batchStart_zero total _) (batchStart_mono total _) hlast
  refine ⟨_, ⟨mem_batchRanges.2 ⟨j, hj, rfl⟩, hstart, hstop⟩, ?_⟩
  rintro r ⟨hr, hstart', hstop'⟩
  obtain ⟨k, hk, rfl⟩ := mem_batchRanges.1 hr
  rw [honce k ⟨hk, hstart', hstop'⟩]

end Ranges

section Batches

theorem flatten_map_starts {α : Type} {starts : Nat → Nat} (hzero : starts 0 = 0)
    (hmono : Monotone starts) (items : List α) (n : Nat) :
    ((List.range n).map fun i =>
      (items.drop (starts i)).take (starts (i + 1) - starts i)).flatten =
      items.take (starts n) := by
  induction n with
  | zero => simp [hzero]
  | succ n ih =>
      rw [List.range_succ, List.map_append, List.flatten_append, ih]
      simp only [List.map_cons, List.map_nil, List.flatten_cons, List.flatten_nil, List.append_nil]
      rw [← List.take_add, Nat.add_sub_cancel' (hmono n.le_succ)]

/-- The batches are the items, in their order. -/
theorem flatten_inBatches {α : Type} {batches : Nat} (h : 0 < batches) (items : List α) :
    (inBatches batches items).flatten = items := by
  have hbatches : inBatches batches items =
      (List.range (min batches items.length)).map fun i =>
        (items.drop (batchStart items.length (min batches items.length) i)).take
          (batchStart items.length (min batches items.length) (i + 1) -
            batchStart items.length (min batches items.length) i) := by
    simp [inBatches, batchRanges]
  rw [hbatches, flatten_map_starts (batchStart_zero _ _) (batchStart_mono _ _)]
  cases items with
  | nil => simp
  | cons a rest =>
      have hused : 0 < min batches (a :: rest).length := Nat.lt_min.2 ⟨h, Nat.succ_pos _⟩
      rw [batchStart_self hused, List.take_length]

end Batches

/-- Dealing out cuts items evenly into consecutive batches, as many as asked for but no more than
there are items.  If any batch is asked for, every item is in exactly one. -/
theorem batchRanges_cut_evenly (total batches : Nat) :
    dealtRanges total batches = batchRanges total batches ∧
      (batchRanges total batches).length = min total batches ∧
      CutsEvenly total (batchRanges total batches) ∧
      (0 < batches → ∀ i < total, ∃! r, r ∈ batchRanges total batches ∧ r.1 ≤ i ∧ i < r.2) ∧
      ∀ {α : Type} (items : List α), (inBatches (max batches 1) items).flatten = items :=
  ⟨dealtRanges_eq_batchRanges total batches, length_batchRanges total batches,
    cutsEvenly_batchRanges total batches, fun hbatches _ hi => existsUnique_batchRanges hbatches hi,
    fun items => flatten_inBatches (by omega) items⟩

theorem batchRanges_cut_evenly_tenItems :
    0 < 3 ∧ 7 < 10 ∧ batchRanges 10 3 = [(0, 4), (4, 7), (7, 10)] ∧
      ∃! r, r ∈ batchRanges 10 3 ∧ r.1 ≤ 7 ∧ 7 < r.2 := by
  obtain ⟨-, -, -, honce, -⟩ := batchRanges_cut_evenly 10 3
  exact ⟨by decide, by decide, by decide, honce (by decide) 7 (by decide)⟩

end Loadout
