import Loadout.Proofs.SeenMapRegistration
import Loadout.Signature

/-!
# Signature maps keep the largest signatures

Taking units off one at a time leads from a signature to exactly those that are no larger anywhere.
So a signature map, which only ever takes single units off, registers what lies below the offered
signatures in the pointwise order and keeps the largest of them.
-/

namespace Loadout

namespace Signature

variable {a b : Signature}

theorem ext_count (h : ∀ c, a.count c = b.count c) : a = b := by
  obtain ⟨levels, pieces⟩ := a
  obtain ⟨levels', pieces'⟩ := b
  have hlevels : levels = levels' := Tally.ext_count fun s => h (.skill s)
  have hpieces : pieces = pieces' := Tally.ext_count fun s => h (.bonus s)
  rw [hlevels, hpieces]

theorem le_iff : a.le b = true ↔ ∀ c, a.count c ≤ b.count c := by
  rw [le, Bool.and_eq_true, Tally.le_iff, Tally.le_iff]
  constructor
  · rintro ⟨hlevels, hpieces⟩ (s | s)
    · exact hlevels s
    · exact hpieces s
  · exact fun h => ⟨fun s => h (.skill s), fun s => h (.bonus s)⟩

theorem mem_below {k : Signature} :
    a ∈ descent.below k ↔ ∃ c, 0 < k.count c ∧ a = k.lower c := by
  rw [show descent.below k = k.components.map k.lower from rfl, List.mem_map]
  simp only [mem_components, eq_comm]

theorem le_lower (h : ∀ c, a.count c ≤ b.count c) {c : Component} (hc : a.count c < b.count c)
    (j : Component) : a.count j ≤ (b.lower c).count j := by
  rw [count_lower]
  split
  next hj =>
    subst hj
    omega
  next => exact h j

/-- Going down from a signature leads to those that are no larger. -/
theorem descent_le_iff : descent.Le a b ↔ a.le b = true := by
  rw [le_iff]
  constructor
  · intro h
    induction h with
    | refl => exact fun c => Nat.le_refl _
    | tail _ hbelow ih =>
        obtain ⟨c, hc, rfl⟩ := mem_below.1 hbelow
        intro j
        have hj := ih j
        rw [count_lower] at hj
        split at hj
        next hjc => exact hjc ▸ hj.trans (Nat.sub_le _ 1)
        next => exact hj
  · intro h
    -- one unit is taken off the larger signature until there is nothing to take off
    induction hn : b.total using Nat.strong_induction_on generalizing b with
    | _ n ih =>
        by_cases hequal : ∀ c, b.count c ≤ a.count c
        · have heq : a = b := ext_count fun c => (h c).antisymm (hequal c)
          exact heq ▸ Descent.Le.refl descent a
        · obtain ⟨c, hc⟩ := not_forall.1 hequal
          have hc : a.count c < b.count c := not_le.1 hc
          have hpos : 0 < b.count c := Nat.zero_lt_of_lt hc
          have hstep := ih _ (hn ▸ total_lower_lt hpos) (le_lower h hc) rfl
          exact hstep.trans (Descent.Le.of_mem_below (mem_below.2 ⟨c, hpos, rfl⟩))

instance : DecidableRel descent.Le := fun _ _ => decidable_of_iff _ descent_le_iff.symm

end Signature

namespace SignatureMap

variable {α : Type}

/-- After any offers a signature map keeps the payloads of the largest signatures, and it has
registered what lies below any offered signature.  Registering comes to its end from any state. -/
theorem ofOffers_keeps_largest (offers : List (Signature × α)) :
    (∀ w : SeenMap.Walk (Std.HashSet Signature) Signature α,
      ∃ n, (SeenMap.Walk.step Signature.descent)^[n] w = ⟨[], w.run Signature.descent⟩) ∧
    (ofOffers offers).payloads =
      (largest (fun a b => a.le b = true) offers).map (·.2) ∧
    (ofOffers offers).size = (largest (fun a b => a.le b = true) offers).length ∧
    (∀ s, SeenSet.contains (ofOffers offers).seen s = true ↔ ∃ e ∈ offers, s.le e.1 = true) ∧
    {s : Signature | ∃ e ∈ offers, s.le e.1 = true}.Finite ∧
    (ofOffers offers).reach = {s : Signature | ∃ e ∈ offers, s.le e.1 = true}.ncard := by
  have hlargest : largest (fun a b => a.le b = true) offers =
      largest Signature.descent.Le offers :=
    largest_congr fun e _ f _ => Signature.descent_le_iff.symm
  obtain ⟨hpayloads, hsize, hseen, hfinite, hreach⟩ :=
    SeenMap.answers_addAll (H := Holding.ofHashSet Signature.descent) hashSetHolds_empty offers
      fun _ _ => trivial
  simp only [Signature.descent_le_iff] at hseen hfinite hreach
  rw [hlargest]
  exact ⟨SeenMap.Walk.exists_iterate_step Signature.descent, hpayloads, hsize,
    fun s => hseen s trivial, hfinite, hreach⟩

end SignatureMap

end Loadout
