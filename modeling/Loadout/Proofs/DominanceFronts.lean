import Loadout.Proofs.DominatedWeapons
import Loadout.Proofs.KeptCandidates

/-!
# Fronts of dominance

A front is a part of what was offered to it, in the order of the offers, and none of its members
covers another.  Offers are told apart by their turns, so that of two offers that cover each other
one can be named as the earlier, and only this one is ever kept.  Dominance of weapons is a
preorder, so all of this holds of the fronts of weapons.
-/

namespace Loadout

namespace Front

variable {α β : Type} {covers : α → α → Bool}

theorem mem_of_mem_offer {f : Front α} {x m : α} (h : m ∈ (f.offer covers x).members) :
    m ∈ f.members ∨ m = x ∧ f.covered covers x = false := by
  cases hx : f.covered covers x with
  | true =>
      rw [members_offer_of_covered hx] at h
      exact .inl h
  | false =>
      rw [members_offer_of_not_covered hx] at h
      rcases List.mem_append.1 h with h | h
      · exact .inl (List.mem_filter.1 h).1
      · exact .inr ⟨List.mem_singleton.1 h, rfl⟩

theorem sublist_offer (f : Front α) (x : α) :
    (f.offer covers x).members.Sublist (f.members ++ [x]) := by
  cases hx : f.covered covers x with
  | true =>
      rw [members_offer_of_covered hx]
      exact List.sublist_append_left f.members [x]
  | false =>
      rw [members_offer_of_not_covered hx]
      exact List.filter_sublist.append_right [x]

theorem sublist_ofOffers (offers : List α) : (ofOffers covers offers).members.Sublist offers := by
  induction offers using List.reverseRecOn with
  | nil => exact .slnil
  | append_singleton offers x ih =>
      rw [ofOffers_append]
      exact (sublist_offer _ x).trans (ih.append_right [x])

/-- Whether no member of a front covers another one. -/
def Antichain (covers : α → α → Bool) (f : Front α) : Prop :=
  f.members.Pairwise fun a b => covers a b = false ∧ covers b a = false

theorem Antichain.offer {f : Front α} (h : f.Antichain covers) (x : α) :
    (f.offer covers x).Antichain covers := by
  unfold Antichain at h ⊢
  cases hx : f.covered covers x with
  | true =>
      rw [members_offer_of_covered hx]
      exact h
  | false =>
      rw [members_offer_of_not_covered hx]
      refine List.pairwise_append.2 ⟨h.filter _, List.pairwise_singleton _ x, ?_⟩
      intro m hm y hy
      obtain ⟨hmem, hleft⟩ := List.mem_filter.1 hm
      rw [List.mem_singleton.1 hy]
      -- the member did not cover the offer, and was not driven out by it
      have hnot : ¬ covers m x = true := List.any_eq_false.1 hx m hmem
      exact ⟨Bool.eq_false_iff.2 hnot, by simpa using hleft⟩

theorem antichain_ofOffers (offers : List α) : (ofOffers covers offers).Antichain covers := by
  induction offers using List.reverseRecOn with
  | nil => exact .nil
  | append_singleton offers x ih =>
      rw [ofOffers_append]
      exact ih.offer x

/-- Covering only looks at a part of each offer: then only this part decides what is kept. -/
theorem map_members_offer {covers : β → β → Bool} (part : α → β) {f : Front α} {f' : Front β}
    (h : f'.members = f.members.map part) (x : α) :
    (f'.offer covers (part x)).members =
      (f.offer (fun a b => covers (part a) (part b)) x).members.map part := by
  have hcovered : f'.covered covers (part x) =
      f.covered (fun a b => covers (part a) (part b)) x := by
    rw [covered, covered, h, List.any_map]
    rfl
  cases hx : f.covered (fun a b => covers (part a) (part b)) x with
  | true =>
      rw [members_offer_of_covered hx, members_offer_of_covered (hcovered.trans hx), h]
  | false =>
      rw [members_offer_of_not_covered hx, members_offer_of_not_covered (hcovered.trans hx), h,
        List.filter_map, List.map_append, List.map_singleton]
      rfl

theorem map_members_ofOffers {covers : β → β → Bool} (part : α → β) (offers : List α) :
    (ofOffers covers (offers.map part)).members =
      (ofOffers (fun a b => covers (part a) (part b)) offers).members.map part := by
  induction offers using List.reverseRecOn with
  | nil => rfl
  | append_singleton offers x ih =>
      rw [List.map_append, List.map_singleton, ofOffers_append, ofOffers_append]
      exact map_members_offer part ih x

/-- What is kept of the offers, each with its turn. -/
def keptTurns (covers : α → α → Bool) (offers : List α) : List (α × Nat) :=
  (ofOffers (fun a b => covers a.1 b.1) offers.zipIdx).members

theorem keptTurns_sublist (offers : List α) :
    (keptTurns covers offers).Sublist offers.zipIdx := sublist_ofOffers offers.zipIdx

theorem map_keptTurns (offers : List α) :
    (keptTurns covers offers).map (·.1) = (ofOffers covers offers).members := by
  have hparts : offers.zipIdx.map (·.1) = offers := List.zipIdx_map_fst 0 offers
  have hkept : (ofOffers covers (offers.zipIdx.map (·.1))).members =
      (keptTurns covers offers).map (·.1) := map_members_ofOffers _ _
  rw [← hkept, hparts]

/-- An offer is turned away if an earlier one covers it, also if that one has been driven out. -/
theorem not_mem_keptTurns (hrefl : ∀ x, covers x x = true)
    (htrans : ∀ x y z, covers x y = true → covers y z = true → covers x z = true)
    {offers : List α} {x y : α} {i j : Nat} (hx : (x, i) ∈ offers.zipIdx) (hij : i < j)
    (hcovers : covers x y = true) : (y, j) ∉ keptTurns covers offers := by
  induction offers using List.reverseRecOn with
  | nil => cases hx
  | append_singleton offers z ih =>
      have hturns : (offers ++ [z]).zipIdx = offers.zipIdx ++ [(z, offers.length)] := by
        simp [List.zipIdx_append]
      have hearlier : ∀ {e : α × Nat}, e ∈ offers.zipIdx → e.2 < offers.length :=
        fun he => List.snd_lt_of_mem_zipIdx he
      rw [hturns] at hx
      have hbefore : i < offers.length → (x, i) ∈ offers.zipIdx := by
        intro hi
        rcases List.mem_append.1 hx with hx | hx
        · exact hx
        · have hturn := congrArg Prod.snd (List.mem_singleton.1 hx)
          exact absurd hturn (Nat.ne_of_lt hi)
      rw [keptTurns, hturns, ofOffers_append]
      intro hkept
      rcases mem_of_mem_offer hkept with hkept | ⟨heq, huncovered⟩
      · have hj := hearlier ((keptTurns_sublist offers).subset hkept)
        exact ih (hbefore (hij.trans hj)) hkept
      · cases heq
        obtain ⟨m, hm, hmx⟩ := exists_covering_member (fun e => hrefl e.1)
          (fun a b c => htrans a.1 b.1 c.1) (hbefore hij)
        have hmy := htrans m.1 x y hmx hcovers
        exact List.any_eq_false.1 huncovered m hm hmy

end Front

namespace WeaponStats

/-- Dominance of whatever has stats. -/
def dominance {α : Type} (stats : α → WeaponStats) (a b : α) : Bool :=
  (stats a).dominates (stats b)

/-- Dominance is reflexive and transitive.  Whatever is offered to a front of dominance, no member
dominates another, some member dominates each offer, and the members are the offers of some turns,
in order, none of which an offer of an earlier turn dominates. -/
theorem front_of_dominance :
    (∀ stats : WeaponStats, stats.dominates stats = true) ∧
      (∀ most middle least : WeaponStats, most.dominates middle = true →
        middle.dominates least = true → most.dominates least = true) ∧
      ∀ {α : Type} (stats : α → WeaponStats) (offers : List α),
        let members := (Front.ofOffers (dominance stats) offers).members
        (members.Pairwise fun a b => dominance stats a b = false ∧ dominance stats b a = false) ∧
          (∀ x ∈ offers, ∃ m ∈ members, dominance stats m x = true) ∧
          ∃ kept : List (α × Nat), kept.Sublist offers.zipIdx ∧ kept.map (·.1) = members ∧
            ∀ x i y j, (x, i) ∈ offers.zipIdx → (y, j) ∈ offers.zipIdx → i < j →
              dominance stats x y = true → (y, j) ∉ kept := by
  refine ⟨dominates_refl, fun _ _ _ => dominates_trans, ?_⟩
  intro α stats offers
  have hrefl : ∀ x, dominance stats x x = true := fun x => dominates_refl (stats x)
  have htrans : ∀ x y z, dominance stats x y = true → dominance stats y z = true →
      dominance stats x z = true := fun _ _ _ => dominates_trans
  refine ⟨Front.antichain_ofOffers offers, ?_, Front.keptTurns (dominance stats) offers,
    Front.keptTurns_sublist offers, Front.map_keptTurns offers, ?_⟩
  · intro x hx
    exact Front.exists_covering_member hrefl htrans hx
  · intro x i y j hx _ hij hcovers
    exact Front.not_mem_keptTurns hrefl htrans hx hij hcovers

/-- A bow with an open element, which dominance does not look at. -/
def elementBow (raw : Nat) (kind : ElementKind) : WeaponStats where
  raw := raw
  affinity := 0
  skill := none
  bonus := none
  slots := []
  gauge := none
  constantSharpness := false
  healthRegen := false
  element := ⟨.openly, kind, 100⟩

/-- The stronger bow drives out the weaker one and stays against its equal. -/
theorem front_of_dominance_bows :
    let offers := [elementBow 100 .fire, elementBow 120 .fire, elementBow 120 .water]
    (elementBow 120 .fire).dominates (elementBow 120 .water) = true ∧
      (elementBow 120 .water).dominates (elementBow 120 .fire) = true ∧
      (Front.ofOffers (dominance id) offers).members = [elementBow 120 .fire] ∧
      (elementBow 120 .fire).dominates (elementBow 100 .fire) = true ∧
      ∃ kept : List (WeaponStats × Nat), kept.map (·.1) = [elementBow 120 .fire] ∧
        (elementBow 120 .water, 2) ∉ kept := by
  intro offers
  have hmembers : (Front.ofOffers (dominance id) offers).members = [elementBow 120 .fire] := by
    decide
  obtain ⟨-, -, hfronts⟩ := front_of_dominance
  obtain ⟨-, hdominated, kept, -, hkept, hearlier⟩ := hfronts id offers
  obtain ⟨m, hm, hweaker⟩ := hdominated (elementBow 100 .fire) (by decide)
  rw [hmembers] at hm hkept
  rw [List.mem_singleton.1 hm] at hweaker
  refine ⟨by decide, by decide, hmembers, hweaker, kept, hkept, ?_⟩
  exact hearlier (elementBow 120 .fire) 1 _ 2 (by decide) (by decide) (by decide) (by decide)

end WeaponStats

end Loadout
