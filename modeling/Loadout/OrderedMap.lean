/-!
# Finite maps in key order

A map is the list of its entries in ascending key order, one entry per key, so two maps that answer
every look-up alike are the same list (`ext_get?`).  Visiting a map in key order is visiting its
entries.
-/

namespace Loadout

open Std

/-- A finite map whose entries are listed in ascending key order. -/
structure OrderedMap (κ ν : Type) [Ord κ] where
  entries : List (κ × ν)
  ascending : entries.Pairwise fun a b => compare a.1 b.1 = .lt

namespace OrderedMap

variable {κ ν : Type} [Ord κ]

def lookup (k : κ) : List (κ × ν) → Option ν
  | [] => none
  | (j, v) :: rest => if compare k j = .eq then some v else lookup k rest

/-- Puts an entry at its place, over an older entry of the same key. -/
def place (k : κ) (v : ν) : List (κ × ν) → List (κ × ν)
  | [] => [(k, v)]
  | (j, w) :: rest =>
      match compare k j with
      | .lt => (k, v) :: (j, w) :: rest
      | .eq => (k, v) :: rest
      | .gt => (j, w) :: place k v rest

@[simp] theorem lookup_nil (k : κ) : lookup k ([] : List (κ × ν)) = none := rfl

theorem lookup_cons (k j : κ) (v : ν) (rest : List (κ × ν)) :
    lookup k ((j, v) :: rest) = if compare k j = .eq then some v else lookup k rest := rfl

theorem mem_place {k : κ} {v : ν} {e : κ × ν} {l : List (κ × ν)} (h : e ∈ place k v l) :
    e = (k, v) ∨ e ∈ l := by
  induction l with
  | nil => simpa [place] using h
  | cons d rest ih =>
    obtain ⟨j, w⟩ := d
    simp only [place] at h
    split at h <;> grind

theorem place_ascending [TransOrd κ] [LawfulEqOrd κ] (k : κ) (v : ν) {l : List (κ × ν)}
    (h : l.Pairwise fun a b => compare a.1 b.1 = .lt) :
    (place k v l).Pairwise fun a b => compare a.1 b.1 = .lt := by
  induction l with
  | nil => simp [place]
  | cons d rest ih =>
    obtain ⟨j, w⟩ := d
    obtain ⟨hj, hrest⟩ := List.pairwise_cons.1 h
    unfold place
    split
    next hlt =>
      refine List.pairwise_cons.2 ⟨?_, h⟩
      intro e he
      rcases List.mem_cons.1 he with rfl | he
      · exact hlt
      · exact TransCmp.lt_trans hlt (hj e he)
    next heq =>
      have hkj : k = j := LawfulEqOrd.eq_of_compare heq
      exact List.pairwise_cons.2 ⟨fun e he => hkj ▸ hj e he, hrest⟩
    next hgt =>
      refine List.pairwise_cons.2 ⟨?_, ih hrest⟩
      intro e he
      rcases mem_place he with rfl | he
      · exact OrientedCmp.lt_of_gt hgt
      · exact hj e he

def empty : OrderedMap κ ν := ⟨[], .nil⟩

instance : EmptyCollection (OrderedMap κ ν) := ⟨empty⟩

instance : Inhabited (OrderedMap κ ν) := ⟨empty⟩

instance [DecidableEq κ] [DecidableEq ν] : DecidableEq (OrderedMap κ ν) := fun a b =>
  if h : a.entries = b.entries then
    isTrue (by cases a; cases b; cases h; rfl)
  else isFalse (fun hab => h (hab ▸ rfl))

/-- The value of a key, if the map has the key. -/
def get? (m : OrderedMap κ ν) (k : κ) : Option ν := lookup k m.entries

def contains (m : OrderedMap κ ν) (k : κ) : Bool := (m.get? k).isSome

/-- Gives a key its value, whatever the key held before. -/
def insert [TransOrd κ] [LawfulEqOrd κ] (m : OrderedMap κ ν) (k : κ) (v : ν) : OrderedMap κ ν :=
  ⟨place k v m.entries, place_ascending k v m.ascending⟩

def filter (m : OrderedMap κ ν) (keep : κ → ν → Bool) : OrderedMap κ ν :=
  ⟨m.entries.filter fun e => keep e.1 e.2, m.ascending.filter _⟩

def erase (m : OrderedMap κ ν) (k : κ) : OrderedMap κ ν := m.filter fun j _ => compare k j != .eq

/-- The map of a list of entries, where the last entry of a key counts. -/
def ofList [TransOrd κ] [LawfulEqOrd κ] (l : List (κ × ν)) : OrderedMap κ ν :=
  l.foldl (fun m e => m.insert e.1 e.2) empty

def keys (m : OrderedMap κ ν) : List κ := m.entries.map (·.1)

def size (m : OrderedMap κ ν) : Nat := m.entries.length

def isEmpty (m : OrderedMap κ ν) : Bool := m.entries.isEmpty

theorem lookup_eq_none_of_lt {k : κ} {l : List (κ × ν)}
    (h : ∀ e ∈ l, compare k e.1 = .lt) : lookup k l = none := by
  induction l with
  | nil => rfl
  | cons d rest ih =>
    obtain ⟨j, w⟩ := d
    have hk := h (j, w) (by simp)
    simp only at hk
    rw [lookup_cons, hk]
    simpa using ih fun e he => h e (by simp [he])

theorem lookup_place_self [LawfulEqOrd κ] (k : κ) (v : ν) (l : List (κ × ν)) :
    lookup k (place k v l) = some v := by
  induction l with
  | nil => simp [place, lookup]
  | cons d rest ih =>
    obtain ⟨j, w⟩ := d
    unfold place
    split <;> simp_all [lookup_cons]

theorem lookup_place_of_ne [LawfulEqOrd κ] {k j : κ} (v : ν) (l : List (κ × ν)) (h : j ≠ k) :
    lookup j (place k v l) = lookup j l := by
  have hjk : compare j k ≠ .eq := fun hc => h (LawfulEqOrd.eq_of_compare hc)
  induction l with
  | nil => simp [place, lookup, hjk]
  | cons d rest ih =>
    obtain ⟨i, w⟩ := d
    unfold place
    split
    next => simp [lookup_cons, hjk]
    next heq =>
      have hki : k = i := LawfulEqOrd.eq_of_compare heq
      subst hki
      simp [lookup_cons, hjk]
    next => simp [lookup_cons, ih]

@[simp] theorem get?_empty (k : κ) : (∅ : OrderedMap κ ν).get? k = none := rfl

@[simp] theorem get?_insert_self [TransOrd κ] [LawfulEqOrd κ] (m : OrderedMap κ ν) (k : κ) (v : ν) :
    (m.insert k v).get? k = some v := lookup_place_self k v m.entries

theorem get?_insert_of_ne [TransOrd κ] [LawfulEqOrd κ] (m : OrderedMap κ ν) {k j : κ} (v : ν)
    (h : j ≠ k) :
    (m.insert k v).get? j = m.get? j := lookup_place_of_ne v m.entries h

theorem lookup_eq_some_iff [LawfulEqOrd κ] {k : κ} {v : ν} {l : List (κ × ν)}
    (h : l.Pairwise fun a b => compare a.1 b.1 = .lt) : lookup k l = some v ↔ (k, v) ∈ l := by
  induction l with
  | nil => simp
  | cons d rest ih =>
    obtain ⟨j, w⟩ := d
    obtain ⟨hj, hrest⟩ := List.pairwise_cons.1 h
    rw [lookup_cons, List.mem_cons]
    split
    next heq =>
      have hkj : k = j := LawfulEqOrd.eq_of_compare heq
      subst hkj
      refine ⟨fun hv => Or.inl (by simpa using hv.symm), ?_⟩
      rintro (hv | hv)
      · simpa using hv.symm
      · exact absurd (hj (k, v) hv) (by simp)
    next hne =>
      rw [ih hrest]
      refine ⟨Or.inr, ?_⟩
      rintro (hv | hv)
      · simp only [Prod.mk.injEq] at hv
        exact absurd (by rw [hv.1]; simp) hne
      · exact hv

theorem get?_eq_some_iff [LawfulEqOrd κ] {m : OrderedMap κ ν} {k : κ} {v : ν} :
    m.get? k = some v ↔ (k, v) ∈ m.entries := lookup_eq_some_iff m.ascending

theorem sum_place [TransOrd κ] [LawfulEqOrd κ] (k : κ) (n : Nat) {l : List (κ × Nat)}
    (h : l.Pairwise fun a b => compare a.1 b.1 = .lt) :
    ((place k n l).map (·.2)).foldr (· + ·) 0 + (lookup k l).getD 0 =
      (l.map (·.2)).foldr (· + ·) 0 + n := by
  induction l with
  | nil => simp [place]
  | cons d rest ih =>
    obtain ⟨j, m⟩ := d
    obtain ⟨hj, hrest⟩ := List.pairwise_cons.1 h
    have := ih hrest
    rw [lookup_cons]
    unfold place
    split
    next hlt =>
      have hnone : lookup k rest = none :=
        lookup_eq_none_of_lt fun e he => TransCmp.lt_trans hlt (hj e he)
      simp [hlt, hnone]
      omega
    next heq => simp [heq]; omega
    next hgt => simp [hgt]; omega

theorem sum_erase [TransOrd κ] [LawfulEqOrd κ] (m : OrderedMap κ Nat) (k : κ) :
    ((m.erase k).entries.map (·.2)).foldr (· + ·) 0 + (lookup k m.entries).getD 0 =
      (m.entries.map (·.2)).foldr (· + ·) 0 := by
  obtain ⟨l, h⟩ := m
  unfold erase filter
  induction l with
  | nil => simp
  | cons d rest ih =>
    obtain ⟨j, n⟩ := d
    obtain ⟨hj, hrest⟩ := List.pairwise_cons.1 h
    have := ih hrest
    rw [lookup_cons]
    by_cases hk : compare k j = .eq
    · have hkj : k = j := LawfulEqOrd.eq_of_compare hk
      subst hkj
      have hnone : lookup k rest = none := lookup_eq_none_of_lt hj
      simp [hnone] at this ⊢
      omega
    · simp [hk] at this ⊢
      omega

theorem not_lt_of_lookup_eq [TransOrd κ] [LawfulEqOrd κ] {c d : κ × ν} {first second : List (κ × ν)}
    (hd : ∀ e ∈ second, compare d.1 e.1 = .lt)
    (h : lookup c.1 (c :: first) = lookup c.1 (d :: second)) : compare c.1 d.1 ≠ .lt := by
  intro hcd
  rw [lookup_cons, lookup_cons, hcd, lookup_eq_none_of_lt fun e he =>
    TransCmp.lt_trans hcd (hd e he)] at h
  simp at h

/-- Maps that answer every look-up alike are equal. -/
theorem ext_get? [TransOrd κ] [LawfulEqOrd κ] {a b : OrderedMap κ ν}
    (h : ∀ k, a.get? k = b.get? k) : a = b := by
  suffices hl : a.entries = b.entries by
    cases a
    cases b
    cases hl
    rfl
  obtain ⟨la, ha⟩ := a
  obtain ⟨lb, hb⟩ := b
  simp only [get?] at h ⊢
  induction la generalizing lb with
  | nil =>
    cases lb with
    | nil => rfl
    | cons d rest => simpa [lookup] using h d.1
  | cons c la ih =>
    cases lb with
    | nil => simpa [lookup] using h c.1
    | cons d lb =>
      obtain ⟨hc, hla⟩ := List.pairwise_cons.1 ha
      obtain ⟨hd, hlb⟩ := List.pairwise_cons.1 hb
      have hcd : c.1 = d.1 := by
        cases hcmp : compare c.1 d.1 with
        | eq => exact LawfulEqOrd.eq_of_compare hcmp
        | lt => exact absurd hcmp (not_lt_of_lookup_eq hd (h c.1))
        | gt => exact absurd (OrientedCmp.lt_of_gt hcmp) (not_lt_of_lookup_eq hc (h d.1).symm)
      have hval : c.2 = d.2 := by
        have := h c.1
        rw [lookup_cons, lookup_cons, hcd] at this
        simpa using this
      have hrest : la = lb := by
        refine ih hla lb hlb fun k => ?_
        have hk := h k
        rw [lookup_cons, lookup_cons, ← hcd] at hk
        split at hk
        next heq =>
          have hkc : k = c.1 := LawfulEqOrd.eq_of_compare heq
          rw [hkc, lookup_eq_none_of_lt hc, hcd, lookup_eq_none_of_lt hd]
        next => exact hk
      rw [show c = d from Prod.ext hcd hval, hrest]

theorem get?_filter [LawfulEqOrd κ] (m : OrderedMap κ ν) (keep : κ → ν → Bool) (k : κ) :
    (m.filter keep).get? k = (m.get? k).filter (keep k) := by
  ext v
  rw [get?_eq_some_iff, Option.filter_eq_some_iff, get?_eq_some_iff]
  simp [filter]

@[simp] theorem get?_erase_self [LawfulEqOrd κ] (m : OrderedMap κ ν) (k : κ) :
    (m.erase k).get? k = none := by
  unfold erase
  rw [get?_filter]
  cases m.get? k <;> simp [Option.filter]

theorem get?_erase_of_ne [LawfulEqOrd κ] (m : OrderedMap κ ν) {k j : κ} (h : j ≠ k) :
    (m.erase k).get? j = m.get? j := by
  have hkj : compare k j ≠ .eq := fun hc => h (LawfulEqOrd.eq_of_compare hc).symm
  unfold erase
  rw [get?_filter]
  cases m.get? j <;> simp [Option.filter, hkj]

end OrderedMap

end Loadout
