import Loadout.OrderedMap

/-!
# Tallies

A tally counts units per key: levels per skill, worn pieces per set bonus.  It lists the keys with
at least one unit, so it is determined by its counts (`ext_count`).  Units are added under a cap,
which is what makes merging two tallies a saturating sum.
-/

namespace Loadout

open Std

/-- Counts per key; keys with no unit are not listed. -/
structure Tally (κ : Type) [Ord κ] where
  counts : OrderedMap κ Nat
  positive : ∀ e ∈ counts.entries, 0 < e.2

namespace Tally

variable {κ : Type} [Ord κ]

def empty : Tally κ := ⟨.empty, by simp [OrderedMap.empty]⟩

instance : EmptyCollection (Tally κ) := ⟨empty⟩

instance : Inhabited (Tally κ) := ⟨empty⟩

instance [DecidableEq κ] : DecidableEq (Tally κ) := fun a b =>
  if h : a.counts = b.counts then
    isTrue (by cases a; cases b; cases h; rfl)
  else isFalse (fun hab => h (hab ▸ rfl))

def count (t : Tally κ) (k : κ) : Nat := (t.counts.get? k).getD 0

/-- The listed keys with their counts, in key order. -/
def toList (t : Tally κ) : List (κ × Nat) := t.counts.entries

def total (t : Tally κ) : Nat := (t.counts.entries.map (·.2)).foldr (· + ·) 0

def size (t : Tally κ) : Nat := t.counts.size

def isEmpty (t : Tally κ) : Bool := t.counts.isEmpty

def has (t : Tally κ) (k : κ) : Bool := 0 < t.count k

/-- The part of the tally on the keys that a test keeps. -/
def keep (t : Tally κ) (p : κ → Bool) : Tally κ :=
  ⟨t.counts.filter fun k _ => p k, fun e he => t.positive e (List.mem_filter.1 he).1⟩

/-- The pointwise order: no key of the first tally has more units there. -/
def le (a b : Tally κ) : Bool := a.toList.all fun e => e.2 ≤ b.count e.1

def set [TransOrd κ] [LawfulEqOrd κ] (t : Tally κ) (k : κ) (n : Nat) : Tally κ :=
  if h : n = 0 then
    ⟨t.counts.erase k, fun e he => t.positive e (List.mem_filter.1 he).1⟩
  else
    ⟨t.counts.insert k n, fun e he => by
      rcases OrderedMap.mem_place he with rfl | he
      · exact Nat.pos_of_ne_zero h
      · exact t.positive e he⟩

/-- Adds units to a key, up to a cap; adding none changes nothing, even above the cap. -/
def raise [TransOrd κ] [LawfulEqOrd κ] (t : Tally κ) (cap : Nat) (k : κ) (n : Nat) : Tally κ :=
  if n = 0 then t else t.set k (min (t.count k + n) cap)

def lower [TransOrd κ] [LawfulEqOrd κ] (t : Tally κ) (k : κ) : Tally κ := t.set k (t.count k - 1)

/-- Adds every unit of the second tally to the first, each key up to its own cap. -/
def merge [TransOrd κ] [LawfulEqOrd κ] (cap : κ → Nat) (a b : Tally κ) : Tally κ :=
  b.toList.foldl (fun t e => t.raise (cap e.1) e.1 e.2) a

/-- The tally with the listed counts, where the last positive count of a key holds. -/
def ofList [TransOrd κ] [LawfulEqOrd κ] (l : List (κ × Nat)) : Tally κ :=
  l.foldl (fun t e => if e.2 = 0 then t else t.set e.1 e.2) empty

@[simp] theorem count_empty (k : κ) : (∅ : Tally κ).count k = 0 := rfl

theorem count_set_self [TransOrd κ] [LawfulEqOrd κ] (t : Tally κ) (k : κ) (n : Nat) :
    (t.set k n).count k = n := by
  unfold set count
  split
  next h => simp [h]
  next => simp

theorem count_set_of_ne [TransOrd κ] [LawfulEqOrd κ] (t : Tally κ) {k j : κ} (n : Nat)
    (h : j ≠ k) : (t.set k n).count j = t.count j := by
  unfold set count
  split
  next => rw [OrderedMap.get?_erase_of_ne _ h]
  next => rw [OrderedMap.get?_insert_of_ne _ _ h]

theorem count_set [TransOrd κ] [LawfulEqOrd κ] [DecidableEq κ] (t : Tally κ) (k j : κ) (n : Nat) :
    (t.set k n).count j = if j = k then n else t.count j := by
  split
  next h => rw [h, count_set_self]
  next h => rw [count_set_of_ne t n h]

theorem count_raise [TransOrd κ] [LawfulEqOrd κ] [DecidableEq κ] (t : Tally κ) (cap : Nat)
    (k j : κ) (n : Nat) :
    (t.raise cap k n).count j =
      if j = k ∧ n ≠ 0 then min (t.count k + n) cap else t.count j := by
  unfold raise
  by_cases hn : n = 0
  · simp [hn]
  · simp [hn, count_set]

theorem count_lower [TransOrd κ] [LawfulEqOrd κ] [DecidableEq κ] (t : Tally κ) (k j : κ) :
    (t.lower k).count j = if j = k then t.count k - 1 else t.count j := count_set t k j _

theorem count_keep [LawfulEqOrd κ] (t : Tally κ) (p : κ → Bool) (k : κ) :
    (t.keep p).count k = if p k then t.count k else 0 := by
  unfold keep count
  rw [OrderedMap.get?_filter]
  cases t.counts.get? k with
  | none => simp
  | some n => cases h : p k <;> simp [Option.filter]

theorem mem_toList_iff [LawfulEqOrd κ] {t : Tally κ} {k : κ} {n : Nat} :
    (k, n) ∈ t.toList ↔ t.count k = n ∧ 0 < n := by
  constructor
  · intro h
    have hget : t.counts.get? k = some n := OrderedMap.get?_eq_some_iff.2 h
    exact ⟨by simp [count, hget], t.positive _ h⟩
  · rintro ⟨hcount, hpos⟩
    refine OrderedMap.get?_eq_some_iff.1 ?_
    unfold count at hcount
    cases hget : t.counts.get? k with
    | none => simp [hget] at hcount; omega
    | some m => simpa [hget] using hcount

theorem exists_mem_toList_iff [LawfulEqOrd κ] {t : Tally κ} {k : κ} :
    (∃ n, (k, n) ∈ t.toList) ↔ 0 < t.count k := by
  simp only [mem_toList_iff]
  exact ⟨fun ⟨_, hcount, hpos⟩ => hcount ▸ hpos, fun hpos => ⟨_, rfl, hpos⟩⟩

theorem total_set [TransOrd κ] [LawfulEqOrd κ] (t : Tally κ) (k : κ) (n : Nat) :
    (t.set k n).total + t.count k = t.total + n := by
  unfold set count total OrderedMap.get?
  split
  next h => simpa [h] using OrderedMap.sum_erase t.counts k
  next => exact OrderedMap.sum_place k n t.counts.ascending

theorem total_lower_lt [TransOrd κ] [LawfulEqOrd κ] {t : Tally κ} {k : κ} (h : 0 < t.count k) :
    (t.lower k).total < t.total := by
  have := t.total_set k (t.count k - 1)
  unfold lower
  omega

theorem ext_count [TransOrd κ] [LawfulEqOrd κ] {a b : Tally κ} (h : ∀ k, a.count k = b.count k) :
    a = b := by
  have hcounts : a.counts = b.counts := by
    refine OrderedMap.ext_get? fun k => ?_
    ext n
    rw [OrderedMap.get?_eq_some_iff, OrderedMap.get?_eq_some_iff]
    change (k, n) ∈ a.toList ↔ (k, n) ∈ b.toList
    rw [mem_toList_iff, mem_toList_iff, h]
  cases a
  cases b
  cases hcounts
  rfl

theorem le_iff [LawfulEqOrd κ] {a b : Tally κ} : a.le b ↔ ∀ k, a.count k ≤ b.count k := by
  unfold le
  rw [List.all_eq_true]
  constructor
  · intro h k
    by_cases hk : a.count k = 0
    · omega
    · simpa using h (k, a.count k) (mem_toList_iff.2 ⟨rfl, by omega⟩)
  · rintro h ⟨k, n⟩ he
    obtain ⟨rfl, _⟩ := mem_toList_iff.1 he
    simpa using h k

end Tally

end Loadout
