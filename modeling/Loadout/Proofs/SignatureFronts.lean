import Loadout.Proofs.CodedMaps
import Loadout.Proofs.LargestSignatures
import Mathlib.Order.Basic
import Mathlib.Order.Defs.PartialOrder

/-!
# Fronts of signatures

The payloads with the largest signatures form a front: they are among the offered ones, every
offered signature lies below one of theirs, and no two of theirs are comparable.  This is what every
map of signatures keeps, whether it works by signatures or by codes.
-/

namespace Loadout

namespace Signature

instance : PartialOrder Signature where
  le a b := ∀ c, a.count c ≤ b.count c
  le_refl _ _ := Nat.le_refl _
  le_trans _ _ _ hab hbc c := (hab c).trans (hbc c)
  le_antisymm _ _ hab hba := ext_count fun c => (hab c).antisymm (hba c)

theorem le_eq_true_iff {a b : Signature} : a.le b = true ↔ a ≤ b := le_iff

instance : DecidableRel fun a b : Signature => a ≤ b := fun _ _ =>
  decidable_of_iff _ le_eq_true_iff

end Signature

section Largest

variable {κ α : Type} [PartialOrder κ] [DecidableEq κ] [DecidableRel fun a b : κ => a ≤ b]

theorem mem_of_mem_largest {offers : List (κ × α)} {e : κ × α}
    (h : e ∈ largest (fun a b => a ≤ b) offers) : e ∈ offers := by
  obtain ⟨⟨e, n⟩, hmem, rfl⟩ := List.mem_map.1 h
  exact List.fst_mem_of_mem_zipIdx (List.mem_filter.1 hmem).1

/-- A further offer leaves the front as it is, or replaces what lies below it. -/
theorem largest_concat_cases (offers : List (κ × α)) (k : κ) (payload : α) :
    ((∃ f ∈ offers, k ≤ f.1) ∧ largest (fun a b => a ≤ b) (offers ++ [(k, payload)]) =
      largest (fun a b => a ≤ b) offers) ∨
    ((∀ f ∈ offers, ¬ k ≤ f.1) ∧ largest (fun a b => a ≤ b) (offers ++ [(k, payload)]) =
      ((largest (fun a b => a ≤ b) offers).filter fun e => ¬ e.1 ≤ k) ++ [(k, payload)]) := by
  by_cases hseen : ∃ f ∈ offers, k ≤ f.1
  · exact .inl ⟨hseen, largest_concat_of_le payload le_trans le_antisymm hseen⟩
  · have hnew : ∀ f ∈ offers, ¬ k ≤ f.1 := fun f hf hle => hseen ⟨f, hf, hle⟩
    exact .inr ⟨hnew, largest_concat_of_not_le payload le_refl hnew⟩

theorem exists_largest_ge {offers : List (κ × α)} {e : κ × α} (he : e ∈ offers) :
    ∃ f ∈ largest (fun a b => a ≤ b) offers, e.1 ≤ f.1 := by
  induction offers using List.reverseRecOn generalizing e with
  | nil => cases he
  | append_singleton offers last ih =>
      obtain ⟨k, payload⟩ := last
      rcases largest_concat_cases offers k payload with ⟨⟨g, hg, hkg⟩, heq⟩ | ⟨-, heq⟩
      · rw [heq]
        rcases List.mem_append.1 he with he | he
        · exact ih he
        · obtain ⟨f, hf, hgf⟩ := ih hg
          rw [List.mem_singleton.1 he]
          exact ⟨f, hf, hkg.trans hgf⟩
      · rw [heq]
        have hlast : (k, payload) ∈ ((largest (fun a b => a ≤ b) offers).filter fun e =>
            ¬ e.1 ≤ k) ++ [(k, payload)] := by simp
        rcases List.mem_append.1 he with he | he
        · obtain ⟨f, hf, hef⟩ := ih he
          by_cases hfk : f.1 ≤ k
          · exact ⟨(k, payload), hlast, hef.trans hfk⟩
          · have hkept : f ∈ (largest (fun a b => a ≤ b) offers).filter fun e => ¬ e.1 ≤ k :=
              List.mem_filter.2 ⟨hf, decide_eq_true hfk⟩
            exact ⟨f, List.mem_append_left _ hkept, hef⟩
        · rw [List.mem_singleton.1 he]
          exact ⟨(k, payload), hlast, le_rfl⟩

theorem pairwise_largest (offers : List (κ × α)) :
    (largest (fun a b => a ≤ b) offers).Pairwise fun e f => ¬ e.1 ≤ f.1 ∧ ¬ f.1 ≤ e.1 := by
  induction offers using List.reverseRecOn with
  | nil => simp [largest]
  | append_singleton offers last ih =>
      obtain ⟨k, payload⟩ := last
      rcases largest_concat_cases offers k payload with ⟨-, heq⟩ | ⟨hnew, heq⟩
      · rw [heq]
        exact ih
      · rw [heq, List.pairwise_append]
        refine ⟨ih.filter _, List.pairwise_singleton _ _, ?_⟩
        intro e he f hf
        obtain ⟨hmem, hek⟩ := List.mem_filter.1 he
        rw [List.mem_singleton.1 hf]
        exact ⟨of_decide_eq_true hek, hnew e (mem_of_mem_largest hmem)⟩

end Largest

section Fronts

variable {α : Type} {signature : α → Signature} {payloads : List α}

/-- The payloads with the largest signatures, of each signature the first, in their order. -/
def frontOf (signature : α → Signature) (payloads : List α) : List α :=
  (largest (fun a b => a ≤ b) (payloads.map fun a => (signature a, a))).map (·.2)

theorem signature_of_mem_largest {e : Signature × α}
    (h : e ∈ largest (fun a b => a ≤ b) (payloads.map fun a => (signature a, a))) :
    e.2 ∈ payloads ∧ signature e.2 = e.1 := by
  obtain ⟨a, ha, rfl⟩ := List.mem_map.1 (mem_of_mem_largest h)
  exact ⟨ha, rfl⟩

theorem frontOf_subset {a : α} (h : a ∈ frontOf signature payloads) : a ∈ payloads := by
  obtain ⟨e, he, rfl⟩ := List.mem_map.1 h
  exact (signature_of_mem_largest he).1

theorem exists_frontOf_ge {a : α} (h : a ∈ payloads) :
    ∃ b ∈ frontOf signature payloads, signature a ≤ signature b := by
  have hoffer : (signature a, a) ∈ payloads.map fun a => (signature a, a) := List.mem_map_of_mem h
  obtain ⟨f, hf, hle⟩ := exists_largest_ge hoffer
  have hsignature := (signature_of_mem_largest hf).2
  exact ⟨f.2, List.mem_map_of_mem hf, hsignature ▸ hle⟩

theorem pairwise_frontOf (signature : α → Signature) (payloads : List α) :
    (frontOf signature payloads).Pairwise fun a b =>
      ¬ signature a ≤ signature b ∧ ¬ signature b ≤ signature a := by
  rw [frontOf, List.pairwise_map]
  apply (pairwise_largest _).imp_of_mem
  intro e f he hf hincomparable
  rw [(signature_of_mem_largest he).2, (signature_of_mem_largest hf).2]
  exact hincomparable

theorem largest_eq_le (offers : List (Signature × α)) :
    largest Signature.descent.Le offers = largest (fun a b => a ≤ b) offers := by
  apply largest_congr
  intro e he f hf
  rw [Signature.descent_le_iff, Signature.le_eq_true_iff]

theorem SignatureMap.payloads_ofOffers (signature : α → Signature) (payloads : List α) :
    (SignatureMap.ofOffers (payloads.map fun a => (signature a, a))).payloads =
      frontOf signature payloads := by
  obtain ⟨hpayloads, -⟩ := SeenMap.answers_addAll (H := Holding.ofHashSet Signature.descent)
    hashSetHolds_empty (payloads.map fun a => (signature a, a)) fun _ _ => trivial
  rw [largest_eq_le] at hpayloads
  exact hpayloads

namespace Sieve

theorem foldlM_plain (offers : List (Signature × α)) (map : SignatureMap α) :
    offers.foldlM (fun sieve e => sieve.offer e.1 e.2) (plain map) =
      .ok (plain (SeenMap.addAll Signature.descent map offers)) := by
  induction offers generalizing map with
  | nil => rfl
  | cons e rest ih => exact ih (map.add Signature.descent e.1 e.2)

theorem foldlM_coded {l : Layout} {offers : List (Signature × α)} {map last : CodeMap α}
    (h : offers.foldlM (fun m e => CodeMap.offer l m e.1 e.2) map = .ok last) :
    offers.foldlM (fun sieve e => sieve.offer e.1 e.2) (coded l map) = .ok (coded l last) := by
  induction offers generalizing map with
  | nil =>
      cases h
      rfl
  | cons e rest ih =>
      obtain ⟨next, hnext, hrest⟩ := SuccessfulRun.bind_eq_ok_iff.1 h
      have hoffer : (coded l map).offer e.1 e.2 = .ok (coded l next) :=
        SuccessfulRun.bind_eq_ok_iff.2 ⟨next, hnext, rfl⟩
      exact SuccessfulRun.bind_eq_ok_iff.2 ⟨coded l next, hoffer, ih hrest⟩

/-- A sieve keeps the front, provided that its layout has a place for all that is offered. -/
theorem keeps_front {layout : Option Layout}
    (h : ∀ l, layout = some l → Place.Distinct l.places ∧
      ∀ a ∈ payloads, (signature a).StaysWithin l.places) :
    ∃ sieve, payloads.foldlM (fun sieve a => sieve.offer (signature a) a) (ofLayout layout) =
      .ok sieve ∧ sieve.payloads = frontOf signature payloads := by
  have hfold : ∀ sieve : Sieve α,
      payloads.foldlM (fun sieve a => sieve.offer (signature a) a) sieve =
        (payloads.map fun a => (signature a, a)).foldlM (fun sieve e => sieve.offer e.1 e.2)
          sieve := by
    intro sieve
    rw [List.foldlM_map]
  rw [hfold, ← SignatureMap.payloads_ofOffers]
  cases layout with
  | none => exact ⟨_, foldlM_plain _ _, rfl⟩
  | some l =>
      obtain ⟨hdistinct, hwithin⟩ := h l rfl
      have hoffers : ∀ e ∈ payloads.map fun a => (signature a, a), e.1.StaysWithin l.places := by
        intro e he
        obtain ⟨a, ha, rfl⟩ := List.mem_map.1 he
        exact hwithin a ha
      obtain ⟨map, hmap, hpayloads, -, -⟩ := CodeMap.answers_of_staysWithin hdistinct hoffers
      exact ⟨_, foldlM_coded hmap, hpayloads⟩

end Sieve

end Fronts

end Loadout
