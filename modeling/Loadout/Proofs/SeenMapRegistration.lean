import Loadout.SeenMap
import Mathlib.Data.Set.Card
import Mathlib.Logic.Function.Iterate
import Mathlib.Logic.Relation

/-!
# What a seen map holds

After any offers, a seen map has registered every key that lies below an offered one, and it keeps
the offers whose keys no other offer exceeds, each key's first one, in their order.

A walk drops a payload only if it meets the payload's own key a second time, and it does not look
below a key that has been registered before.  Nothing is missed in this way because a key whose
payload is still there is never one unit below a registered key: when a larger key arrives, the walk
comes to it from above through new keys only.
-/

namespace Loadout

namespace Descent

variable {κ : Type} {d : Descent κ} {a b c k : κ}

/-- Whether a key is reached from another one by going down, or is that key. -/
def Le (d : Descent κ) (a b : κ) : Prop := Relation.ReflTransGen (fun c k => c ∈ d.below k) a b

theorem Le.refl (d : Descent κ) (k : κ) : d.Le k k := Relation.ReflTransGen.refl

theorem Le.trans (hab : d.Le a b) (hbc : d.Le b c) : d.Le a c := Relation.ReflTransGen.trans hab hbc

theorem Le.of_mem_below (h : c ∈ d.below k) : d.Le c k := Relation.ReflTransGen.single h

theorem Le.eq_or_below (h : d.Le a b) : a = b ∨ ∃ x, a ∈ d.below x ∧ d.Le x b :=
  Relation.ReflTransGen.cases_head h

theorem Le.rank_le (h : d.Le a b) : d.rank a ≤ d.rank b := by
  induction h with
  | refl => exact Nat.le_refl _
  | tail _ hbelow ih => exact ih.trans (d.rank_lt hbelow).le

theorem Le.antisymm (hab : d.Le a b) (hba : d.Le b a) : a = b := by
  rcases hab.eq_or_below with heq | ⟨x, hx, hxb⟩
  · exact heq
  · have hlt := d.rank_lt hx
    have hle := (hxb.trans hba).rank_le
    omega

/-- A set that contains what lies one unit below its keys contains all that lies below them. -/
theorem Le.mem_of_closed {S : Finset κ} (hclosed : ∀ x ∈ S, ∀ c ∈ d.below x, c ∈ S)
    (h : d.Le a b) (hb : b ∈ S) : a ∈ S := by
  induction h using Relation.ReflTransGen.head_induction_on with
  | refl => exact hb
  | head hbelow _ ih => exact hclosed _ ih _ hbelow

end Descent

namespace Shelf

section Entries

variable {κ α : Type}

/-- The payloads that are still there, with the keys of their places. -/
def entries (tagged : List (κ × Option α)) : List (κ × α) :=
  tagged.filterMap fun e => e.2.map (e.1, ·)

theorem entries_append (first second : List (κ × Option α)) :
    entries (first ++ second) = entries first ++ entries second :=
  List.filterMap_append

theorem mem_entries_of_getElem? {tagged : List (κ × Option α)} {n : Nat} {k : κ} {payload : α}
    (h : tagged[n]? = some (k, some payload)) : (k, payload) ∈ entries tagged :=
  List.mem_filterMap.2 ⟨_, List.mem_of_getElem? h, rfl⟩

theorem exists_getElem?_of_mem_entries {tagged : List (κ × Option α)} {e : κ × α}
    (h : e ∈ entries tagged) : ∃ n : Nat, tagged[n]? = some (e.1, some e.2) := by
  obtain ⟨⟨k, payload⟩, hmem, heq⟩ := List.mem_filterMap.1 h
  obtain ⟨p, hp, rfl⟩ := Option.map_eq_some_iff.1 heq
  cases hp
  exact List.mem_iff_getElem?.1 hmem

theorem map_entries (tagged : List (κ × Option α)) :
    (entries tagged).map (·.2) = (tagged.map (·.2)).filterMap id := by
  rw [entries, List.map_filterMap, List.filterMap_map]
  congr 1
  funext e
  cases h : e.2 <;> simp [h]

theorem length_entries (tagged : List (κ × Option α)) :
    (entries tagged).length = (tagged.map (·.2)).countP Option.isSome := by
  rw [entries, List.length_filterMap_eq_countP, List.countP_map]
  congr 1
  funext e
  simp

def vacate [DecidableEq κ] (tagged : List (κ × Option α)) (k : κ) : List (κ × Option α) :=
  tagged.map fun e => (e.1, if e.1 = k then none else e.2)

theorem entries_vacate [DecidableEq κ] (tagged : List (κ × Option α)) (k : κ) :
    entries (vacate tagged k) = (entries tagged).filter fun e => e.1 ≠ k := by
  induction tagged with
  | nil => rfl
  | cons e rest ih =>
      obtain ⟨j, payload⟩ := e
      cases payload with
      | none => simpa [entries, vacate] using ih
      | some p => by_cases hjk : j = k <;> simpa [entries, vacate, hjk] using ih

end Entries

variable {κ α : Type} [BEq κ] [Hashable κ]

/-- Whether the places of a shelf are those of a list, tagged with the keys they were put under. -/
structure Tagged (s : Shelf κ α) (tagged : List (κ × Option α)) : Prop where
  places : s.places.toList = tagged.map (·.2)
  index : ∀ (k : κ) (n : Nat),
    s.index[k]? = some n ↔ ∃ payload, tagged[n]? = some (k, some payload)
  live : s.live = (entries tagged).length

/-- Whether a shelf keeps exactly the payloads of a list, each under its key. -/
def Keeps (s : Shelf κ α) (kept : List (κ × α)) : Prop :=
  ∃ tagged, s.Tagged tagged ∧ entries tagged = kept

theorem Keeps.payloads_eq {s : Shelf κ α} {kept : List (κ × α)} (h : s.Keeps kept) :
    s.payloads = kept.map (·.2) := by
  obtain ⟨tagged, htagged, rfl⟩ := h
  rw [payloads, htagged.places, map_entries]

theorem Keeps.live_eq {s : Shelf κ α} {kept : List (κ × α)} (h : s.Keeps kept) :
    s.live = kept.length := by
  obtain ⟨tagged, htagged, rfl⟩ := h
  exact htagged.live

theorem Tagged.eq_of_place {s : Shelf κ α} {tagged : List (κ × Option α)} (h : s.Tagged tagged)
    {k : κ} {m n : Nat} {p : α} (hindex : s.index[k]? = some n)
    (hplace : tagged[m]? = some (k, some p)) : n = m :=
  Option.some.inj (hindex.symm.trans ((h.index k m).2 ⟨p, hplace⟩))

theorem Tagged.set_eq_vacate [DecidableEq κ] {s : Shelf κ α} {tagged : List (κ × Option α)}
    (h : s.Tagged tagged) {k : κ} {n : Nat} (hindex : s.index[k]? = some n) :
    (tagged.map (·.2)).set n none = (vacate tagged k).map (·.2) := by
  obtain ⟨payload, hplace⟩ := (h.index k n).1 hindex
  refine List.ext_getElem? fun m => ?_
  rw [vacate, List.getElem?_set, List.map_map, List.getElem?_map, List.getElem?_map]
  by_cases hnm : n = m
  · subst hnm
    have hlength := (List.getElem?_eq_some_iff.1 hplace).1
    rw [hplace]
    simp [hlength]
  · cases hm : tagged[m]? with
    | none => simp [hnm]
    | some e =>
        obtain ⟨j, p⟩ := e
        by_cases hjk : j = k
        · subst hjk
          cases p with
          | none => simp [hnm]
          | some p => exact absurd (h.eq_of_place hindex hm) hnm
        · simp [hnm, hjk]

theorem keeps_empty : (∅ : Shelf κ α).Keeps [] := by
  refine ⟨[], ⟨rfl, fun k n => ?_, rfl⟩, rfl⟩
  have hindex : (∅ : Shelf κ α).index[k]? = none := Std.HashMap.getElem?_empty
  simp [hindex]

variable [LawfulBEq κ]

/-- A payload put under a new key stands behind all others. -/
theorem Keeps.put {s : Shelf κ α} {kept : List (κ × α)} (h : s.Keeps kept) {k : κ} (payload : α)
    (hnew : ∀ e ∈ kept, e.1 ≠ k) : (s.put k payload).Keeps (kept ++ [(k, payload)]) := by
  obtain ⟨tagged, htagged, rfl⟩ := h
  have hsize : s.places.size = tagged.length := by
    rw [← Array.length_toList, htagged.places, List.length_map]
  refine ⟨tagged ++ [(k, some payload)], ⟨?_, fun j n => ?_, ?_⟩, entries_append _ _⟩
  · simp [Shelf.put, htagged.places]
  · rw [Shelf.put, Std.HashMap.getElem?_insert, hsize]
    rcases Nat.lt_trichotomy n tagged.length with hn | rfl | hn
    · rw [List.getElem?_append_left hn, ← htagged.index]
      split
      next hkj =>
        -- no earlier place has the new key
        obtain rfl := eq_of_beq hkj
        have hne : tagged.length ≠ n := hn.ne'
        have hold : s.index[k]? ≠ some n := fun hindex => by
          obtain ⟨p, hp⟩ := (htagged.index k n).1 hindex
          exact hnew _ (mem_entries_of_getElem? hp) rfl
        simp [hne, hold]
      next => rfl
    · have hold : s.index[j]? ≠ some tagged.length := fun hindex => by
        obtain ⟨p, hp⟩ := (htagged.index j _).1 hindex
        simp at hp
      by_cases hkj : k = j
      · simp [hkj]
      · simp [hkj, hold]
    · have hold : s.index[j]? ≠ some n := fun hindex => by
        obtain ⟨p, hp⟩ := (htagged.index j n).1 hindex
        rw [List.getElem?_eq_none hn.le] at hp
        cases hp
      have hnone : (tagged ++ [(k, some payload)])[n]? = none := by
        rw [List.getElem?_eq_none_iff, List.length_append, List.length_singleton]
        omega
      have hne : tagged.length ≠ n := hn.ne
      rw [hnone]
      by_cases hkj : k = j
      · simp [hkj, hne]
      · simp [hkj, hold]
  · simp [Shelf.put, htagged.live, entries]

variable [DecidableEq κ]

theorem Keeps.drop {s : Shelf κ α} {kept : List (κ × α)} (h : s.Keeps kept) (k : κ) :
    (s.drop k).Keeps (kept.filter fun e => e.1 ≠ k) := by
  obtain ⟨tagged, htagged, rfl⟩ := h
  unfold Shelf.drop
  split
  next hindex =>
    refine ⟨tagged, htagged, (List.filter_eq_self.2 fun e he => ?_).symm⟩
    obtain ⟨n, hn⟩ := exists_getElem?_of_mem_entries he
    have hplace := (htagged.index e.1 n).2 ⟨_, hn⟩
    refine decide_eq_true fun hek => ?_
    rw [show e.1 = k from hek, hindex] at hplace
    cases hplace
  next n hindex =>
    obtain ⟨payload, hplace⟩ := (htagged.index k n).1 hindex
    have hplaces := htagged.set_eq_vacate hindex
    have hlist : (tagged.map (·.2))[n]? = some (some payload) := by
      rw [List.getElem?_map, hplace]
      rfl
    have hfull : s.places[n]? = some (some payload) := by
      rw [← Array.getElem?_toList, htagged.places, hlist]
    rw [hfull]
    refine ⟨vacate tagged k, ⟨?_, fun j m => ?_, ?_⟩, entries_vacate tagged k⟩
    · rw [← hplaces, ← htagged.places]
      simp
    · rw [Std.HashMap.getElem?_erase, vacate, List.getElem?_map]
      by_cases hkj : k = j
      · subst hkj
        cases tagged[m]? with
        | none => simp
        | some e => by_cases hek : e.1 = k <;> simp [Prod.ext_iff, hek]
      · rw [if_neg (by simpa using hkj), htagged.index]
        cases tagged[m]? with
        | none => simp
        | some e =>
            by_cases hek : e.1 = k
            · simp [Prod.ext_iff, hek, hkj]
            · simp [Prod.ext_iff, hek]
    · obtain ⟨hlength, hget⟩ := List.getElem?_eq_some_iff.1 hlist
      rw [length_entries, ← hplaces, List.countP_set hlength, hget, htagged.live, length_entries]
      simp

end Shelf

/-- How a set of keys out of a domain is held.  Registering never leaves the domain. -/
structure Holding {κ : Type} (d : Descent κ) (σ : Type) [SeenSet σ κ] [DecidableEq κ] where
  domain : κ → Prop
  domain_below : ∀ {k c}, domain k → c ∈ d.below k → domain c
  /-- Whether it holds exactly these keys. -/
  Holds : σ → Finset κ → Prop
  contains_iff : ∀ {s S k}, Holds s S → domain k → (SeenSet.contains s k = true ↔ k ∈ S)
  insert : ∀ {s S k}, Holds s S → domain k → k ∉ S → Holds (SeenSet.insert s k) (insert k S)
  size_eq : ∀ {s S}, Holds s S → SeenSet.size s = S.card

/-- Whether a hash set holds exactly the keys of a set. -/
def HashSetHolds {κ : Type} [BEq κ] [Hashable κ] (s : Std.HashSet κ) (S : Finset κ) : Prop :=
  (∀ k, s.contains k = true ↔ k ∈ S) ∧ s.size = S.card

theorem hashSetHolds_empty {κ : Type} [BEq κ] [Hashable κ] :
    HashSetHolds (∅ : Std.HashSet κ) ∅ :=
  ⟨by simp, by simp⟩

theorem HashSetHolds.insert {κ : Type} [BEq κ] [LawfulBEq κ] [Hashable κ] [DecidableEq κ]
    {s : Std.HashSet κ} {S : Finset κ} (h : HashSetHolds s S) {k : κ} (hk : k ∉ S) :
    HashSetHolds (s.insert k) (Insert.insert k S) := by
  have hnew : k ∉ s := fun hmem => hk ((h.1 k).1 hmem)
  refine ⟨fun j => ?_, ?_⟩
  · rw [Std.HashSet.contains_insert, Finset.mem_insert, Bool.or_eq_true, beq_iff_eq, h.1 j,
      eq_comm]
  · rw [Std.HashSet.size_insert, if_neg hnew, Finset.card_insert_of_notMem hk, h.2]

def Holding.ofHashSet {κ : Type} [BEq κ] [LawfulBEq κ] [Hashable κ] [DecidableEq κ]
    (d : Descent κ) : Holding d (Std.HashSet κ) where
  domain _ := True
  domain_below _ _ := trivial
  Holds := HashSetHolds
  contains_iff h _ := h.1 _
  insert h _ hk := h.insert hk
  size_eq h := h.2

theorem Holding.domain_of_le {κ σ : Type} [SeenSet σ κ] [DecidableEq κ] {d : Descent κ}
    (H : Holding d σ) {a b : κ} (h : d.Le a b) (hb : H.domain b) : H.domain a := by
  induction h using Relation.ReflTransGen.head_induction_on with
  | refl => exact hb
  | head hbelow _ ih => exact H.domain_below ih hbelow

section Largest

variable {κ α : Type} [DecidableEq κ] {le : κ → κ → Prop} [DecidableRel le]

/-- Whether the key of an offer, given with its position, lies strictly below no offered key and was
not offered before. -/
def IsLargest (le : κ → κ → Prop) (offers : List (κ × α)) (e : (κ × α) × Nat) : Prop :=
  (∀ f ∈ offers, ¬ (le e.1.1 f.1 ∧ e.1.1 ≠ f.1)) ∧ ∀ f ∈ offers.take e.2, f.1 ≠ e.1.1

instance (offers : List (κ × α)) : DecidablePred (IsLargest le offers) :=
  fun _ => inferInstanceAs (Decidable (_ ∧ _))

/-- The offers with the largest keys, of each key the first, in their order. -/
def largest (le : κ → κ → Prop) [DecidableRel le] (offers : List (κ × α)) : List (κ × α) :=
  (offers.zipIdx.filter fun e => IsLargest le offers e).map (·.1)

theorem largest_congr {le' : κ → κ → Prop} [DecidableRel le'] {offers : List (κ × α)}
    (h : ∀ e ∈ offers, ∀ f ∈ offers, le e.1 f.1 ↔ le' e.1 f.1) :
    largest le offers = largest le' offers := by
  unfold largest
  congr 1
  refine List.filter_congr fun e he => ?_
  have hmem : e.1 ∈ offers := List.fst_mem_of_mem_zipIdx he
  have hlargest : IsLargest le offers e ↔ IsLargest le' offers e :=
    and_congr_left' (forall₂_congr fun f hf => by rw [h e.1 hmem f hf])
  simp only [hlargest]

theorem largest_concat (offers : List (κ × α)) (k : κ) (payload : α) :
    largest le (offers ++ [(k, payload)]) =
      ((largest le offers).filter fun e => ¬ (le e.1 k ∧ e.1 ≠ k)) ++
        if ∀ f ∈ offers, ¬ (le k f.1 ∧ k ≠ f.1) ∧ f.1 ≠ k then [(k, payload)] else [] := by
  unfold largest
  rw [List.zipIdx_append, List.filter_append, List.map_append, List.filter_map,
    List.filter_filter]
  congr 1
  · congr 1
    refine List.filter_congr fun e he => ?_
    have hn : e.2 ≤ offers.length := by
      have := List.snd_lt_of_mem_zipIdx he
      omega
    have htake : (offers ++ [(k, payload)]).take e.2 = offers.take e.2 :=
      List.take_append_of_le_length hn
    have hlargest : IsLargest le (offers ++ [(k, payload)]) e ↔
        ¬ (le e.1.1 k ∧ e.1.1 ≠ k) ∧ IsLargest le offers e := by
      unfold IsLargest
      rw [htake, List.forall_mem_append, List.forall_mem_singleton]
      tauto
    simp only [hlargest, Bool.decide_and, Function.comp_apply]
  · have hlargest : IsLargest le (offers ++ [(k, payload)]) ((k, payload), offers.length) ↔
        ∀ f ∈ offers, ¬ (le k f.1 ∧ k ≠ f.1) ∧ f.1 ≠ k := by
      unfold IsLargest
      rw [List.take_left, List.forall_mem_append, List.forall_mem_singleton, forall₂_and]
      simp
    by_cases h : ∀ f ∈ offers, ¬ (le k f.1 ∧ k ≠ f.1) ∧ f.1 ≠ k
    · rw [if_pos h]
      simp [hlargest.2 h]
    · rw [if_neg h]
      simp [mt hlargest.1 h]

theorem eq_of_mem_largest {offers : List (κ × α)} {e f : κ × α} (he : e ∈ largest le offers)
    (hf : f ∈ offers) (hle : le e.1 f.1) : e.1 = f.1 := by
  obtain ⟨⟨e, n⟩, hmem, rfl⟩ := List.mem_map.1 he
  have hlargest : IsLargest le offers (e, n) := of_decide_eq_true (List.mem_filter.1 hmem).2
  exact not_not.1 fun hne => hlargest.1 f hf ⟨hle, hne⟩

/-- An offer whose key lies below an earlier one changes nothing. -/
theorem largest_concat_of_le {offers : List (κ × α)} {k : κ} (payload : α)
    (htrans : ∀ {a b c}, le a b → le b c → le a c) (hantisymm : ∀ {a b}, le a b → le b a → a = b)
    (h : ∃ f ∈ offers, le k f.1) : largest le (offers ++ [(k, payload)]) = largest le offers := by
  obtain ⟨f, hf, hkf⟩ := h
  have hseen : ¬ ∀ f ∈ offers, ¬ (le k f.1 ∧ k ≠ f.1) ∧ f.1 ≠ k := fun hall =>
    (hall f hf).1 ⟨hkf, (hall f hf).2.symm⟩
  rw [largest_concat, if_neg hseen, List.append_nil, List.filter_eq_self]
  intro e he
  refine decide_eq_true fun ⟨hek, hne⟩ => hne ?_
  have heq : e.1 = f.1 := eq_of_mem_largest he hf (htrans hek hkf)
  exact hantisymm hek (heq ▸ hkf)

/-- An offer whose key lies below no earlier one comes last and replaces those below it. -/
theorem largest_concat_of_not_le {offers : List (κ × α)} {k : κ} (payload : α)
    (hrefl : ∀ a, le a a) (h : ∀ f ∈ offers, ¬ le k f.1) :
    largest le (offers ++ [(k, payload)]) =
      ((largest le offers).filter fun e => ¬ le e.1 k) ++ [(k, payload)] := by
  have hnew : ∀ f ∈ offers, f.1 ≠ k := fun f hf heq => h f hf (heq ▸ hrefl k)
  rw [largest_concat, if_pos fun f hf => ⟨fun hle => h f hf hle.1, hnew f hf⟩]
  congr 1
  refine List.filter_congr fun e he => ?_
  obtain ⟨⟨e, n⟩, hmem, rfl⟩ := List.mem_map.1 he
  have hne : e.1 ≠ k := hnew e (List.fst_mem_of_mem_zipIdx (List.mem_filter.1 hmem).1)
  simp [hne]

end Largest

namespace SeenMap

variable {κ σ α : Type} [BEq κ] [Hashable κ] [DecidableEq κ] [SeenSet σ κ]
variable {d : Descent κ} {H : Holding d σ}

/-- A walk that registers all below a root, compared with the map before it: the keys registered by
now, and the keys that have come up a second time. -/
structure Registering (H : Holding d σ) (root : κ) (before : Finset κ) (kept : List (κ × α))
    (w : Walk σ κ α) (seen gone : Finset κ) : Prop where
  holds : H.Holds w.map.seen seen
  keeps : w.map.shelf.Keeps (kept.filter fun e => e.1 ∉ gone)
  before_subset : before ⊆ seen
  new_below : ∀ x ∈ seen, x ∈ before ∨ d.Le x root
  pending_below : ∀ x ∈ w.pending, d.Le x root
  gone_below : ∀ x ∈ gone, d.Le x root
  root_met : root ∈ seen ∨ root ∈ w.pending
  /-- What lies one unit below a new key is pending, or the walk has been there. -/
  below_met : ∀ x ∈ seen, x ∉ before → ∀ c ∈ d.below x,
    c ∈ w.pending ∨ c ∈ seen ∧ (c ∈ before → c ∈ gone)

section Registering

variable {root k : κ} {before seen gone : Finset κ} {kept : List (κ × α)} {rest : List κ} {held : σ}
variable {shelf : Shelf κ α}

/-- A key that comes up again leaves the pending ones without its payload. -/
theorem Registering.afterSeen [LawfulBEq κ]
    (h : Registering H root before kept ⟨k :: rest, ⟨held, shelf⟩⟩ seen gone) (hseen : k ∈ seen) :
    Registering H root before kept ⟨rest, ⟨held, shelf.drop k⟩⟩ seen (insert k gone) where
  holds := h.holds
  keeps := by
    have hdrop := h.keeps.drop k
    rw [List.filter_filter] at hdrop
    simpa [not_or] using hdrop
  before_subset := h.before_subset
  new_below := h.new_below
  pending_below := fun x hx => h.pending_below x (List.mem_cons_of_mem k hx)
  gone_below := by
    intro x hx
    rcases Finset.mem_insert.1 hx with rfl | hx
    · exact h.pending_below x List.mem_cons_self
    · exact h.gone_below x hx
  root_met := by
    rcases h.root_met with hmet | hmet
    · exact .inl hmet
    · rcases List.mem_cons.1 hmet with rfl | hmet
      · exact .inl hseen
      · exact .inr hmet
  below_met := by
    intro x hx hxnew c hc
    rcases h.below_met x hx hxnew c hc with hmet | ⟨hmet, hgone⟩
    · rcases List.mem_cons.1 hmet with rfl | hmet
      · exact .inr ⟨hseen, fun _ => Finset.mem_insert_self c gone⟩
      · exact .inl hmet
    · exact .inr ⟨hmet, fun hbefore => Finset.mem_insert_of_mem (hgone hbefore)⟩

/-- A new key is registered, and what lies one unit below it is pending. -/
theorem Registering.afterNew
    (h : Registering H root before kept ⟨k :: rest, ⟨held, shelf⟩⟩ seen gone) (hk : H.domain k)
    (hnew : k ∉ seen) :
    Registering H root before kept
      ⟨(d.below k).reverse ++ rest, ⟨SeenSet.insert held k, shelf⟩⟩ (insert k seen) gone where
  holds := H.insert h.holds hk hnew
  keeps := h.keeps
  before_subset := h.before_subset.trans (Finset.subset_insert k seen)
  new_below := by
    intro x hx
    rcases Finset.mem_insert.1 hx with rfl | hx
    · exact .inr (h.pending_below x List.mem_cons_self)
    · exact h.new_below x hx
  pending_below := by
    intro x hx
    rcases List.mem_append.1 hx with hx | hx
    · exact (Descent.Le.of_mem_below (List.mem_reverse.1 hx)).trans
        (h.pending_below k List.mem_cons_self)
    · exact h.pending_below x (List.mem_cons_of_mem k hx)
  gone_below := h.gone_below
  root_met := by
    rcases h.root_met with hmet | hmet
    · exact .inl (Finset.mem_insert_of_mem hmet)
    · rcases List.mem_cons.1 hmet with rfl | hmet
      · exact .inl (Finset.mem_insert_self root seen)
      · exact .inr (List.mem_append_right _ hmet)
  below_met := by
    intro x hx hxnew c hc
    rcases Finset.mem_insert.1 hx with rfl | hx
    · exact .inl (List.mem_append_left rest (List.mem_reverse.2 hc))
    · rcases h.below_met x hx hxnew c hc with hmet | ⟨hmet, hgone⟩
      · rcases List.mem_cons.1 hmet with rfl | hmet
        · -- registered just now, so it was not there before
          exact .inr ⟨Finset.mem_insert_self c seen,
            fun hbefore => absurd (h.before_subset hbefore) hnew⟩
        · exact .inl (List.mem_append_right _ hmet)
      · exact .inr ⟨Finset.mem_insert_of_mem hmet, hgone⟩

theorem Registering.step [LawfulBEq κ] {w : Walk σ κ α} (hroot : H.domain root)
    (h : Registering H root before kept w seen gone) :
    ∃ seen gone, Registering H root before kept (w.step d) seen gone := by
  obtain ⟨pending, ⟨held, shelf⟩⟩ := w
  cases pending with
  | nil => exact ⟨seen, gone, h⟩
  | cons k rest =>
      have hk : H.domain k := H.domain_of_le (h.pending_below k List.mem_cons_self) hroot
      have hcontains := H.contains_iff h.holds hk
      by_cases hseen : k ∈ seen
      · have hstep : (Walk.mk (k :: rest) (SeenMap.mk held shelf)).step d =
            ⟨rest, ⟨held, shelf.drop k⟩⟩ := if_pos (hcontains.2 hseen)
        rw [hstep]
        exact ⟨seen, insert k gone, h.afterSeen hseen⟩
      · have hstep : (Walk.mk (k :: rest) (SeenMap.mk held shelf)).step d =
            ⟨(d.below k).reverse ++ rest, ⟨SeenSet.insert held k, shelf⟩⟩ :=
          if_neg fun hheld => hseen (hcontains.1 hheld)
        rw [hstep]
        exact ⟨insert k seen, gone, h.afterNew hk hseen⟩

theorem Registering.run [LawfulBEq κ] {w : Walk σ κ α} (hroot : H.domain root)
    (h : Registering H root before kept w seen gone) :
    ∃ seen gone, Registering H root before kept ⟨[], w.run d⟩ seen gone := by
  fun_induction w.run d generalizing seen gone with
  | case1 w hdone =>
      obtain ⟨pending, map⟩ := w
      cases List.isEmpty_iff.1 hdone
      exact ⟨seen, gone, h⟩
  | case2 w hpending ih =>
      obtain ⟨seen, gone, hnext⟩ := h.step hroot
      exact ih hnext

variable {m : SeenMap σ κ α}

/-- When nothing is pending, the walk has been everywhere below the new keys. -/
theorem Registering.below_met_of_finished (h : Registering H root before kept ⟨[], m⟩ seen gone)
    {x c : κ} (hx : x ∈ seen) (hnew : x ∉ before) (hc : c ∈ d.below x) :
    c ∈ seen ∧ (c ∈ before → c ∈ gone) :=
  (h.below_met x hx hnew c hc).resolve_left List.not_mem_nil

theorem Registering.root_mem (h : Registering H root before kept ⟨[], m⟩ seen gone) :
    root ∈ seen :=
  h.root_met.resolve_right List.not_mem_nil

theorem Registering.closed (h : Registering H root before kept ⟨[], m⟩ seen gone)
    (hbefore : ∀ x ∈ before, ∀ c ∈ d.below x, c ∈ before) :
    ∀ x ∈ seen, ∀ c ∈ d.below x, c ∈ seen := by
  intro x hx c hc
  by_cases hxbefore : x ∈ before
  · exact h.before_subset (hbefore x hxbefore c hc)
  · exact (h.below_met_of_finished hx hxbefore hc).1

theorem Registering.mem_iff (h : Registering H root before kept ⟨[], m⟩ seen gone)
    (hbefore : ∀ x ∈ before, ∀ c ∈ d.below x, c ∈ before) (x : κ) :
    x ∈ seen ↔ x ∈ before ∨ d.Le x root := by
  refine ⟨h.new_below x, fun hx => ?_⟩
  rcases hx with hx | hx
  · exact h.before_subset hx
  · exact hx.mem_of_closed (h.closed hbefore) h.root_mem

/-- A payload is dropped exactly if its key lies below the root.  Nothing above the key was
registered before, so the walk comes to the key from a new one. -/
theorem Registering.mem_gone_iff (h : Registering H root before kept ⟨[], m⟩ seen gone)
    (hbefore : ∀ x ∈ before, ∀ c ∈ d.below x, c ∈ before) (hroot : root ∉ before)
    (hk : k ∈ before) (htop : ∀ x ∈ before, k ∉ d.below x) : k ∈ gone ↔ d.Le k root := by
  refine ⟨h.gone_below k, fun hle => ?_⟩
  rcases hle.eq_or_below with heq | ⟨x, hx, hxroot⟩
  · exact absurd (heq ▸ hk) hroot
  · have hxnew : x ∉ before := fun hxbefore => htop x hxbefore hx
    have hxseen : x ∈ seen := (h.mem_iff hbefore x).2 (.inr hxroot)
    exact (h.below_met_of_finished hxseen hxnew hx).2 hk

end Registering

/-- What a seen map holds between offers: its registered keys and its kept payloads. -/
structure Settled (H : Holding d σ) (m : SeenMap σ κ α) (seen : Finset κ) (kept : List (κ × α)) :
    Prop where
  holds : H.Holds m.seen seen
  keeps : m.shelf.Keeps kept
  closed : ∀ x ∈ seen, ∀ c ∈ d.below x, c ∈ seen
  kept_seen : ∀ e ∈ kept, e.1 ∈ seen
  /-- Nothing above a key that has its payload is registered. -/
  kept_top : ∀ e ∈ kept, ∀ x ∈ seen, e.1 ∉ d.below x

theorem Settled.registering {m : SeenMap σ κ α} {seen : Finset κ} {kept : List (κ × α)}
    (h : Settled H m seen kept) (k : κ) : Registering H k seen kept ⟨[k], m⟩ seen ∅ where
  holds := h.holds
  keeps := by simpa using h.keeps
  before_subset := subset_rfl
  new_below := fun x hx => .inl hx
  pending_below := fun x hx => List.mem_singleton.1 hx ▸ Descent.Le.refl d k
  gone_below := by simp
  root_met := .inr List.mem_cons_self
  below_met := fun x hx hxnew => absurd hx hxnew

variable [LawfulBEq κ]

/-- A new key is registered with all below it, and its payload replaces those below it. -/
theorem Settled.add_new {m : SeenMap σ κ α} {seen : Finset κ} {kept : List (κ × α)}
    (h : Settled H m seen kept) {k : κ} (hk : H.domain k) (hnew : k ∉ seen) (payload : α)
    [DecidableRel d.Le] :
    ∃ after, (∀ x, x ∈ after ↔ x ∈ seen ∨ d.Le x k) ∧
      Settled H (m.add d k payload) after
        ((kept.filter fun e => ¬ d.Le e.1 k) ++ [(k, payload)]) := by
  obtain ⟨after, gone, hrun⟩ := (h.registering k).run hk
  have hafter := hrun.mem_iff h.closed
  have hgone : ∀ e ∈ kept, (e.1 ∈ gone ↔ d.Le e.1 k) := fun e he =>
    hrun.mem_gone_iff h.closed hnew (h.kept_seen e he) (h.kept_top e he)
  have hfilter : (kept.filter fun e => e.1 ∉ gone) = kept.filter fun e => ¬ d.Le e.1 k :=
    List.filter_congr fun e he => by simp [hgone e he]
  have hkeeps := hfilter ▸ hrun.keeps
  have hcontains : SeenSet.contains m.seen k ≠ true :=
    fun hheld => hnew ((H.contains_iff h.holds hk).1 hheld)
  have hadd : m.add d k payload =
      ⟨(Walk.run d ⟨[k], m⟩).seen, (Walk.run d ⟨[k], m⟩).shelf.put k payload⟩ := if_neg hcontains
  refine ⟨after, hafter, ?_⟩
  rw [hadd]
  refine ⟨hrun.holds, hkeeps.put payload ?_, hrun.closed h.closed, ?_, ?_⟩
  · intro e he heq
    exact hnew (heq ▸ h.kept_seen e (List.mem_filter.1 he).1)
  · intro e he
    rcases List.mem_append.1 he with he | he
    · exact (hafter e.1).2 (.inl (h.kept_seen e (List.mem_filter.1 he).1))
    · exact List.mem_singleton.1 he ▸ hrun.root_mem
  · intro e he x hx hbelow
    rcases List.mem_append.1 he with he | he
    · obtain ⟨he, hle⟩ := List.mem_filter.1 he
      rcases (hafter x).1 hx with hx | hx
      · exact h.kept_top e he x hx hbelow
      · exact of_decide_eq_true hle ((Descent.Le.of_mem_below hbelow).trans hx)
    · cases List.mem_singleton.1 he
      rcases (hafter x).1 hx with hx | hx
      · exact hnew (h.closed x hx k hbelow)
      · have hlt := d.rank_lt hbelow
        have hle := hx.rank_le
        exact absurd hlt hle.not_gt

/-- After any offers the registered keys are those below an offered one, and the kept payloads are
those of the largest offers. -/
theorem settled_addAll [DecidableRel d.Le] {s : σ} (hs : H.Holds s ∅) (offers : List (κ × α))
    (hdomain : ∀ e ∈ offers, H.domain e.1) :
    ∃ seen, (∀ x, x ∈ seen ↔ ∃ e ∈ offers, d.Le x e.1) ∧
      Settled H (SeenMap.addAll d (ofSeen s) offers) seen (largest d.Le offers) := by
  induction offers using List.reverseRecOn with
  | nil => exact ⟨∅, by simp, ⟨hs, Shelf.keeps_empty, by simp, by simp [largest], by simp⟩⟩
  | append_singleton offers e ih =>
      obtain ⟨k, payload⟩ := e
      obtain ⟨seen, hseen, hsettled⟩ := ih fun e he => hdomain e (List.mem_append_left _ he)
      have hk : H.domain k := hdomain (k, payload) (by simp)
      have hadd : addAll d (ofSeen s) (offers ++ [(k, payload)]) =
          (addAll d (ofSeen s) offers).add d k payload := List.foldl_concat ..
      have hbelow : ∀ x, (∃ e ∈ offers ++ [(k, payload)], d.Le x e.1) ↔
          (∃ e ∈ offers, d.Le x e.1) ∨ d.Le x k := fun x => by
        simp only [List.mem_append, List.mem_singleton, or_and_right, exists_or, exists_eq_left]
      rw [hadd]
      by_cases hmet : k ∈ seen
      · have hcontains := (H.contains_iff hsettled.holds hk).2 hmet
        have hkeep : (addAll d (ofSeen s) offers).add d k payload =
            addAll d (ofSeen s) offers := if_pos hcontains
        rw [hkeep, largest_concat_of_le payload Descent.Le.trans Descent.Le.antisymm
          ((hseen k).1 hmet)]
        refine ⟨seen, fun x => ?_, hsettled⟩
        rw [hseen, hbelow]
        refine ⟨.inl, fun hx => hx.elim id fun hle => ?_⟩
        obtain ⟨f, hf, hkf⟩ := (hseen k).1 hmet
        exact ⟨f, hf, hle.trans hkf⟩
      · obtain ⟨after, hafter, hnext⟩ := hsettled.add_new hk hmet payload
        rw [largest_concat_of_not_le payload (Descent.Le.refl d)
          fun f hf hle => hmet ((hseen k).2 ⟨f, hf, hle⟩)]
        refine ⟨after, fun x => ?_, hnext⟩
        rw [hafter, hseen, hbelow]

/-- What a seen map answers after any offers. -/
theorem answers_addAll [DecidableRel d.Le] {s : σ} (hs : H.Holds s ∅) (offers : List (κ × α))
    (hdomain : ∀ e ∈ offers, H.domain e.1) :
    (addAll d (ofSeen s) offers).payloads = (largest d.Le offers).map (·.2) ∧
      (addAll d (ofSeen s) offers).size = (largest d.Le offers).length ∧
      (∀ x, H.domain x → (SeenSet.contains (addAll d (ofSeen s) offers).seen x = true ↔
        ∃ e ∈ offers, d.Le x e.1)) ∧
      {x | ∃ e ∈ offers, d.Le x e.1}.Finite ∧
      (addAll d (ofSeen s) offers).reach = {x | ∃ e ∈ offers, d.Le x e.1}.ncard := by
  obtain ⟨seen, hseen, hsettled⟩ := settled_addAll hs offers hdomain
  have hset : {x | ∃ e ∈ offers, d.Le x e.1} = ↑seen := Set.ext fun x => (hseen x).symm
  refine ⟨hsettled.keeps.payloads_eq, hsettled.keeps.live_eq, fun x hx => ?_, ?_, ?_⟩
  · rw [H.contains_iff hsettled.holds hx, hseen]
  · exact hset ▸ seen.finite_toSet
  · rw [hset, Set.ncard_coe_finset]
    exact H.size_eq hsettled.holds

namespace Walk

omit [LawfulBEq κ] [DecidableEq κ]

/-- A walk comes to its end after finitely many steps. -/
theorem exists_iterate_step (d : Descent κ) (w : Walk σ κ α) :
    ∃ n, (step d)^[n] w = ⟨[], w.run d⟩ := by
  fun_induction w.run d with
  | case1 w hdone =>
      obtain ⟨pending, map⟩ := w
      cases List.isEmpty_iff.1 hdone
      exact ⟨0, rfl⟩
  | case2 w hpending ih =>
      obtain ⟨n, hn⟩ := ih
      exact ⟨n + 1, hn⟩

end Walk

end SeenMap

end Loadout
