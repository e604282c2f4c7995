import Loadout.Proofs.AcceptedRequests
import Loadout.Proofs.CappedSums
import Loadout.Proofs.SignatureCodes

/-!
# Guarded codes

Layouts and codes are worked out once more as loops within 128 bits.  A layout is laid out place by
place, each with the number of codes so far as its stride, and given up as soon as that number does
not fit.  A code is added up entry by entry, every product and every sum guarded.  Laying out fails
exactly if the last number does not fit.  No guard strikes on the way to a code: after any of the
entries the sum is a code of the layout itself, that of what has been added so far.
-/

namespace Loadout

/-- A quantity, if it fits into 128 bits. -/
def Fault.wide (n : Nat) : Except Fault Nat := if n ≤ codeLimit then .ok n else .error .overflow

theorem Fault.wide_eq_ok {n : Nat} (h : n ≤ codeLimit) : wide n = .ok n := if_pos h

/-- The strides of the places laid out so far, and the number of codes that these have. -/
structure Extent where
  strides : List Nat
  space : Nat

namespace Extent

def lay (m : Extent) (p : Place) : Option Extent :=
  if m.space * p.radix ≤ codeLimit then some ⟨m.strides ++ [m.space], m.space * p.radix⟩ else none

def ofPlaces? (places : List Place) : Option Extent := places.foldlM lay ⟨[], 1⟩

end Extent

/-- The components of a signature with their numbers, set bonuses behind skills. -/
def Signature.entries (s : Signature) : List (Component × Nat) :=
  s.levels.toList.map (fun e => (.skill e.1, e.2)) ++ s.pieces.toList.map fun e => (.bonus e.1, e.2)

/-- The last position of a component. -/
def Place.position? (c : Component) : List Place → Option Nat
  | [] => none
  | p :: rest =>
      match position? c rest with
      | some n => some (n + 1)
      | none => if p.component = c then some 0 else none

namespace Layout

def maximum (l : Layout) (position : Nat) : Nat := (l.places[position]?.map (·.maximum)).getD 0

/-- Adds the digit of an entry, cut at its maximum, to a code. -/
def addEntry (l : Layout) (code : Nat) (e : Component × Nat) : Except Fault Nat :=
  match Place.position? e.1 l.places with
  | some n => do
      let part ← Fault.wide (l.stride n * min e.2 (l.maximum n))
      Fault.wide (code + part)
  | none => .error .unlisted

def guardedEncode (l : Layout) (s : Signature) : Except Fault Nat := s.entries.foldlM l.addEntry 0

end Layout

namespace Place

theorem space_pos (places : List Place) : 0 < space places := by
  induction places with
  | nil => exact Nat.one_pos
  | cons p rest ih => exact Nat.mul_pos (Nat.succ_pos p.maximum) ih

theorem space_eq_prod (places : List Place) : space places = (places.map radix).prod := by
  induction places with
  | nil => rfl
  | cons p rest ih => rw [space, ih, List.map_cons, List.prod_cons]

/-- The weights of places, where the first place has the given one. -/
def strides (stride : Nat) (places : List Place) : List Nat :=
  (List.range places.length).map fun n => stride * space (places.take n)

theorem strides_cons (stride : Nat) (p : Place) (rest : List Place) :
    strides stride (p :: rest) = stride :: strides (stride * p.radix) rest := by
  rw [strides, List.length_cons, List.range_succ_eq_map, List.map_cons, List.map_map]
  congr 1
  · simp [space]
  · refine List.map_congr_left fun n _ => ?_
    simp [space, Nat.mul_assoc]

/-- Laying out further places succeeds if all codes fit, and a number that does not fit stays too
large with every further place. -/
theorem foldlM_lay (places : List Place) (laid : List Nat) {stride : Nat}
    (hstride : stride ≤ codeLimit) :
    places.foldlM Extent.lay ⟨laid, stride⟩ =
      if stride * space places ≤ codeLimit then
        some ⟨laid ++ strides stride places, stride * space places⟩
      else none := by
  induction places generalizing laid stride with
  | nil => simp [space, strides, hstride]
  | cons p rest ih =>
      have hassoc : stride * p.radix * space rest = stride * space (p :: rest) :=
        Nat.mul_assoc _ _ _
      rw [List.foldlM_cons, Extent.lay]
      by_cases hfits : stride * p.radix ≤ codeLimit
      · have hrest := ih (laid ++ [stride]) hfits
        rw [hassoc, List.append_assoc, List.singleton_append, ← strides_cons] at hrest
        rw [if_pos hfits]
        exact hrest
      · have hlarge : ¬ stride * space (p :: rest) ≤ codeLimit := by
          have hle := Nat.le_mul_of_pos_right (stride * p.radix) (space_pos rest)
          rw [hassoc] at hle
          omega
        rw [if_neg hfits, if_neg hlarge]
        rfl

end Place

namespace Layout

def extent (l : Layout) : Extent := ⟨(List.range l.places.length).map l.stride, l.space⟩

theorem extent_ofPlaces? (places : List Place) :
    Extent.ofPlaces? places = (ofPlaces? places).map extent := by
  have hlaid := Place.foldlM_lay places [] (show 1 ≤ codeLimit by decide)
  rw [Nat.one_mul] at hlaid
  rw [Extent.ofPlaces?, hlaid, ofPlaces?]
  split
  next => simp [extent, Place.strides, stride, space]
  next => rfl

theorem ofPlaces?_eq_none_iff {places : List Place} :
    ofPlaces? places = none ↔ codeLimit < Place.space places := by
  rw [ofPlaces?]
  split
  next h => simpa using h
  next h => simpa using h

end Layout

section Entries

variable {s : Signature}

theorem Signature.keys_entries : s.entries.map (·.1) = s.components := by
  rw [entries, components, List.map_append, List.map_map, List.map_map]
  rfl

theorem Signature.nodup_components (s : Signature) : s.components.Nodup := by
  have hnodup := Component.nodup_append s.levels.counts.nodup_keys s.pieces.counts.nodup_keys
  rw [OrderedMap.keys, OrderedMap.keys, List.map_map, List.map_map] at hnodup
  exact hnodup

theorem Signature.mem_entries {c : Component} {n : Nat} :
    (c, n) ∈ s.entries ↔ s.count c = n ∧ 0 < n := by
  cases c <;> simp [entries, count, Tally.mem_toList_iff]

theorem Signature.unitsOf_entries (s : Signature) (c : Component) :
    Tally.unitsOf s.entries c = s.count c := by
  rcases (s.count c).eq_zero_or_pos with hzero | hpos
  · rw [hzero]
    apply Tally.unitsOf_eq_zero
    rw [keys_entries, mem_components, hzero]
    exact Nat.lt_irrefl 0
  · have hdistinct : (s.entries.map (·.1)).Nodup := keys_entries ▸ s.nodup_components
    exact Tally.unitsOf_eq_of_mem hdistinct (mem_entries.2 ⟨rfl, hpos⟩)

end Entries

namespace Place

variable {f : Component → Nat} {places : List Place} {c : Component}

theorem clippedCode_zero (places : List Place) : clippedCode (fun _ => 0) places = 0 := by
  induction places with
  | nil => rfl
  | cons p rest ih => simp [clippedCode, ih]

/-- Numbers that have none of a component yet are raised by the weight of its digit. -/
theorem clippedCode_raise (hdistinct : Distinct places) {n m : Nat} {p : Place}
    (hp : places[n]? = some p) (hf : f p.component = 0) :
    clippedCode (fun c => f c + if p.component = c then m else 0) places =
      clippedCode f places + space (places.take n) * min m p.maximum := by
  induction places generalizing n with
  | nil => simp at hp
  | cons first rest ih =>
      cases n with
      | zero =>
          obtain rfl : first = p := by simpa using hp
          have hrest : clippedCode (fun c => f c + if first.component = c then m else 0) rest =
              clippedCode f rest :=
            clippedCode_congr fun q hq => by rw [if_neg (hdistinct.ne hq), Nat.add_zero]
          simp only [clippedCode, hrest, hf, if_pos, List.take_zero, space]
          omega
      | succ n =>
          have hmem : p ∈ rest := List.mem_of_getElem? (by simpa using hp)
          have hrest := ih (List.nodup_cons.1 hdistinct).2 (by simpa using hp)
          simp only [clippedCode, hrest, if_neg (hdistinct.ne hmem).symm, Nat.add_zero,
            List.take_succ_cons, space]
          ring

theorem getElem?_of_position? {n : Nat} (h : position? c places = some n) :
    ∃ p, places[n]? = some p ∧ p.component = c := by
  induction places generalizing n with
  | nil => cases h
  | cons first rest ih =>
      unfold position? at h
      split at h
      next m hm =>
        cases h
        exact ih hm
      next =>
        split at h
        next hfirst =>
          cases h
          exact ⟨first, rfl, hfirst⟩
        next => cases h

theorem position?_eq_none_iff : position? c places = none ↔ ∀ p ∈ places, p.component ≠ c := by
  induction places with
  | nil => simp [position?]
  | cons first rest ih =>
      rw [List.forall_mem_cons, ← ih, position?]
      cases position? c rest <;> simp

end Place

namespace Layout

variable {l : Layout}

theorem clippedCode_le (l : Layout) (f : Component → Nat) :
    Place.clippedCode f l.places ≤ codeLimit :=
  (Place.clippedCode_lt_space f l.places).le.trans l.fits

/-- An entry of a new component leads from a code of the layout to another one. -/
theorem addEntry_clippedCode (hdistinct : Place.Distinct l.places) {f : Component → Nat}
    {e : Component × Nat} (hf : f e.1 = 0) :
    l.addEntry (Place.clippedCode f l.places) e =
      if l.lists e.1 then
        .ok (Place.clippedCode (fun c => f c + if e.1 = c then e.2 else 0) l.places)
      else .error .unlisted := by
  unfold addEntry lists
  cases hposition : Place.position? e.1 l.places with
  | none =>
      have hnone := Place.position?_eq_none_iff.1 hposition
      rw [if_neg (by simpa using hnone)]
  | some n =>
      obtain ⟨p, hp, hkey⟩ := Place.getElem?_of_position? hposition
      have hany : l.places.any (·.component = e.1) = true :=
        List.any_eq_true.2 ⟨p, List.mem_of_getElem? hp, decide_eq_true hkey⟩
      have hmaximum : l.maximum n = p.maximum := by rw [maximum, hp]; rfl
      have hraise := Place.clippedCode_raise hdistinct (m := e.2) hp (hkey ▸ hf)
      have hfits := l.clippedCode_le fun c => f c + if p.component = c then e.2 else 0
      rw [hraise] at hfits
      have hpart : Fault.wide (l.stride n * min e.2 (l.maximum n)) =
          .ok (Place.space (l.places.take n) * min e.2 p.maximum) := by
        rw [hmaximum]
        exact Fault.wide_eq_ok (by unfold stride; omega)
      rw [if_pos hany, ← hkey, hraise]
      simp only [hpart, bind, Except.bind]
      exact Fault.wide_eq_ok hfits

/-- Adding entries of new components up runs from code to code, up to one that is not listed. -/
theorem foldlM_addEntry (hdistinct : Place.Distinct l.places) {entries : List (Component × Nat)}
    (hkeys : (entries.map (·.1)).Nodup) {f : Component → Nat} (hf : ∀ e ∈ entries, f e.1 = 0) :
    entries.foldlM l.addEntry (Place.clippedCode f l.places) =
      if (entries.map (·.1)).all l.lists then
        .ok (Place.clippedCode (fun c => f c + Tally.unitsOf entries c) l.places)
      else .error .unlisted := by
  induction entries generalizing f with
  | nil => rfl
  | cons e rest ih =>
      obtain ⟨hnew, hkeys⟩ := List.nodup_cons.1 hkeys
      obtain ⟨he, hrest⟩ := List.forall_mem_cons.1 hf
      rw [List.foldlM_cons, addEntry_clippedCode hdistinct he]
      by_cases hlists : l.lists e.1 = true
      · have hzero : ∀ g ∈ rest, (f g.1 + if e.1 = g.1 then e.2 else 0) = 0 := by
          intro g hg
          have hne : e.1 ≠ g.1 := fun heq => hnew (List.mem_map.2 ⟨g, hg, heq.symm⟩)
          rw [hrest g hg, if_neg hne]
        have hrun := ih hkeys (f := fun c => f c + if e.1 = c then e.2 else 0) hzero
        simp only [Nat.add_assoc, ← Tally.unitsOf_cons] at hrun
        rw [if_pos hlists, List.map_cons, List.all_cons, hlists, Bool.true_and]
        exact hrun
      · rw [if_neg hlists, List.map_cons, List.all_cons, Bool.eq_false_iff.2 hlists]
        rfl

theorem guardedEncode_eq_encode (hdistinct : Place.Distinct l.places) (s : Signature) :
    l.guardedEncode s = l.encode s := by
  have hkeys : (s.entries.map (·.1)).Nodup := Signature.keys_entries ▸ s.nodup_components
  have hrun := foldlM_addEntry hdistinct hkeys (f := fun _ => 0) fun _ _ => rfl
  simp only [Nat.zero_add, Signature.unitsOf_entries, Place.clippedCode_zero,
    Signature.keys_entries] at hrun
  rw [guardedEncode, hrun, encode]
  exact if_congr Iff.rfl (congrArg _ (Place.codeOf_eq_clippedCode hdistinct).symm) rfl

end Layout

end Loadout
