import Loadout.Proofs.SuccessfulRun
import Loadout.Search.Candidate
import Mathlib.Data.List.Induction

/-!
# Kept candidates

A front only holds offers, and whatever it turns away or drives out is covered by a member, as far
as covering is a preorder.  The candidates of a request are the front of its configurations, each
with its ceiling.
-/

namespace Loadout

namespace Front

variable {α : Type} {covers : α → α → Bool}

theorem ofOffers_append (offers : List α) (x : α) :
    ofOffers covers (offers ++ [x]) = (ofOffers covers offers).offer covers x := List.foldl_append

theorem mem_of_mem_ofOffers {offers : List α} {x : α} (h : x ∈ (ofOffers covers offers).members) :
    x ∈ offers := by
  induction offers using List.reverseRecOn with
  | nil => cases h
  | append_singleton offers y ih =>
      rw [ofOffers_append] at h
      cases hcovered : (ofOffers covers offers).covered covers y with
      | true =>
          rw [members_offer_of_covered hcovered] at h
          exact List.mem_append_left _ (ih h)
      | false =>
          rw [members_offer_of_not_covered hcovered] at h
          rcases List.mem_append.1 h with h | h
          · exact List.mem_append_left _ (ih (List.mem_filter.1 h).1)
          · exact List.mem_append_right _ h

theorem exists_covering_offer
    (htrans : ∀ x y z, covers x y = true → covers y z = true → covers x z = true) {f : Front α}
    {x y m : α} (hm : m ∈ f.members) (hcovers : covers m x = true) :
    ∃ m' ∈ (f.offer covers y).members, covers m' x = true := by
  cases hy : f.covered covers y with
  | true =>
      rw [members_offer_of_covered hy]
      exact ⟨m, hm, hcovers⟩
  | false =>
      rw [members_offer_of_not_covered hy]
      -- a member is only driven out by an offer that covers it, and then it covers for the member
      by_cases hym : covers y m = true
      · exact ⟨y, by simp, htrans y m x hym hcovers⟩
      · exact ⟨m, by simp [hm, hym], hcovers⟩

theorem exists_covering_self (hrefl : ∀ x, covers x x = true) (f : Front α) (x : α) :
    ∃ m ∈ (f.offer covers x).members, covers m x = true := by
  cases hx : f.covered covers x with
  | true =>
      rw [members_offer_of_covered hx]
      exact List.any_eq_true.1 hx
  | false =>
      rw [members_offer_of_not_covered hx]
      exact ⟨x, by simp, hrefl x⟩

theorem exists_covering_member (hrefl : ∀ x, covers x x = true)
    (htrans : ∀ x y z, covers x y = true → covers y z = true → covers x z = true)
    {offers : List α} {x : α} (hx : x ∈ offers) :
    ∃ m ∈ (ofOffers covers offers).members, covers m x = true := by
  induction offers using List.reverseRecOn with
  | nil => cases hx
  | append_singleton offers y ih =>
      rw [ofOffers_append]
      rcases List.mem_append.1 hx with hx | hx
      · obtain ⟨m, hm, hcovers⟩ := ih hx
        exact exists_covering_offer htrans hm hcovers
      · rw [List.mem_singleton.1 hx]
        exact exists_covering_self hrefl _ y

end Front

namespace Request

variable {R : Type} [Reckoning R] {q : Request} {c : Catalogue} {candidates : List (Candidate R)}

/-- How a configuration becomes a candidate. -/
structure Rated (q : Request) (c : Catalogue) (k : ConfiguredWeapon × WeaponStats)
    (w : Candidate R) : Prop where
  weapon : w.weapon = k.1
  stats : w.stats = k.2
  ceiling : Candidate.ceilingOf c.skills q.requirements q.consumables.boost
    w.weapon.weapon.weaponClass w.stats = .ok w.ceiling

/-- The candidates are the kept configurations in some order, each with its ceiling. -/
theorem candidates_eq_ok (h : q.candidates c = .ok candidates) :
    ∃ configurations rated, q.configurations c = .ok configurations ∧
      List.Forall₂ (q.Rated c)
        (Front.ofOffers (fun a b => a.2.dominates b.2) configurations).members rated ∧
      candidates.Perm rated := by
  obtain ⟨configurations, hconfigurations, h⟩ := SuccessfulRun.bind_eq_ok_iff.1 h
  dsimp only at h
  split at h
  next => cases h
  next =>
    obtain ⟨rated, hrated, h⟩ := SuccessfulRun.bind_eq_ok_iff.1 h
    cases h
    refine ⟨configurations, rated, SearchError.ofFault_eq_ok_iff.1 hconfigurations, ?_,
      List.mergeSort_perm _ _⟩
    refine (SuccessfulRun.mapM_eq_ok_iff.1 (SearchError.ofFault_eq_ok_iff.1 hrated)).imp ?_
    intro k w hrun
    obtain ⟨ceiling, hceiling, hw⟩ := SuccessfulRun.bind_eq_ok_iff.1 hrun
    cases hw
    exact ⟨rfl, rfl, hceiling⟩

/-- What a candidate of a request is: a fully spent setup of an allowed weapon. -/
structure CandidateOf (q : Request) (c : Catalogue) (w : Candidate R) (stats : WeaponStats) :
    Prop where
  weapon : w.weapon.weapon ∈ q.allowedWeapons c
  setup : w.weapon.setup ∈ Setup.full w.weapon.weapon
  own : w.weapon.stats = .ok stats
  healthRegen : q.healthRegenRequired = true → stats.healthRegen = true
  counted : w.stats = q.requirements.restrictStats stats

omit [Reckoning R] in
theorem exists_candidateOf_of_mem_configurations
    {configurations : List (ConfiguredWeapon × WeaponStats)}
    (h : q.configurations c = .ok configurations) {k : ConfiguredWeapon × WeaponStats}
    (hk : k ∈ configurations) (ceiling : R) :
    ∃ stats, q.CandidateOf c ⟨k.1, k.2, ceiling⟩ stats := by
  obtain ⟨all, hall, h⟩ := SuccessfulRun.bind_eq_ok_iff.1 h
  cases h
  obtain ⟨healthy, hhealthy, rfl⟩ := List.mem_map.1 hk
  obtain ⟨hmem, hhealth⟩ := List.mem_filter.1 hhealthy
  obtain ⟨configured, hin, hstats⟩ :=
    SuccessfulRun.exists_item (SuccessfulRun.mapM_eq_ok_iff.1 hall) hmem
  obtain ⟨stats, hown, heq⟩ := SuccessfulRun.bind_eq_ok_iff.1 hstats
  cases heq
  obtain ⟨weapon, hweapon, hsetup⟩ := List.mem_flatMap.1 hin
  obtain ⟨setup, hfull, rfl⟩ := List.mem_map.1 hsetup
  refine ⟨stats, hweapon, hfull, hown, ?_, rfl⟩
  intro hrequired
  simpa [hrequired] using hhealth

omit [Reckoning R] in
theorem mem_configurations_of_candidateOf
    {configurations : List (ConfiguredWeapon × WeaponStats)}
    (h : q.configurations c = .ok configurations) {k : Candidate R} {stats : WeaponStats}
    (hk : q.CandidateOf c k stats) : (k.weapon, k.stats) ∈ configurations := by
  obtain ⟨all, hall, h⟩ := SuccessfulRun.bind_eq_ok_iff.1 h
  cases h
  have hin : k.weapon ∈
      (q.allowedWeapons c).flatMap fun w => (Setup.full w).map fun s => ⟨w, s⟩ :=
    List.mem_flatMap.2 ⟨k.weapon.weapon, hk.weapon, List.mem_map.2 ⟨_, hk.setup, rfl⟩⟩
  obtain ⟨made, hmade, hrun⟩ :=
    SuccessfulRun.exists_result (SuccessfulRun.mapM_eq_ok_iff.1 hall) hin
  obtain ⟨stats', hstats, heq⟩ := SuccessfulRun.bind_eq_ok_iff.1 hrun
  cases heq
  cases hk.own.symm.trans hstats
  have hhealthy : (!q.healthRegenRequired || stats.healthRegen) = true := by
    cases hrequired : q.healthRegenRequired with
    | false => rfl
    | true => exact hk.healthRegen hrequired
  exact List.mem_map.2 ⟨_, List.mem_filter.2 ⟨hmade, hhealthy⟩, Prod.ext rfl hk.counted.symm⟩

theorem exists_candidateOf_of_mem_candidates (h : q.candidates c = .ok candidates)
    {w : Candidate R} (hw : w ∈ candidates) : ∃ stats, q.CandidateOf c w stats := by
  obtain ⟨configurations, rated, hconfigurations, hrated, hperm⟩ := candidates_eq_ok h
  obtain ⟨k, hk, hkept⟩ := SuccessfulRun.exists_item hrated (hperm.mem_iff.1 hw)
  obtain ⟨stats, hcandidate⟩ := exists_candidateOf_of_mem_configurations hconfigurations
    (Front.mem_of_mem_ofOffers hk) w.ceiling
  rw [← hkept.weapon, ← hkept.stats] at hcandidate
  exact ⟨stats, hcandidate⟩

end Request

end Loadout
