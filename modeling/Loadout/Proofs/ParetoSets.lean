import Loadout.Proofs.AssembledSets
import Mathlib.Order.Minimal

/-!
# The assembled sets are the Pareto front

Without cutoffs every set with every entry of the next table is formed.  Merging is monotone in both
arguments, so a choice that is given up at one slot stays below the choice that replaced it, and
after the last slot the sets are exactly the choices with maximal signatures.
-/

namespace Loadout

variable {q : Request} {c : Catalogue} {useful : List UsefulDecoration}

/-- Whether sets are the front of all choices for some slots. -/
structure IsFront (q : Request) (c : Catalogue) (useful : List UsefulDecoration)
    (slots : List Slot) (sets : List ArmourSet) : Prop where
  chosen : ∀ s ∈ sets, ∃ x : Choice q c useful slots, x.set = s
  covers : ∀ x : Choice q c useful slots, ∃ s ∈ sets, x.signature ≤ s.signature
  incomparable : sets.Pairwise fun a b =>
    ¬ a.signature ≤ b.signature ∧ ¬ b.signature ≤ a.signature

namespace IsFront

variable {slots : List Slot} {sets : List ArmourSet}

theorem charmSeeds : IsFront q c useful [] ((q.charmSeeds c).map ArmourSet.ofSeed) := by
  refine ⟨fun s hs => Request.exists_choice_of_mem_seeds hs, ?_, ?_⟩
  all_goals rw [Request.charmSeeds_eq]
  · rintro ⟨seed, entries, eligible, allowed⟩
    rw [List.forall₂_nil_left_iff] at allowed
    subst allowed
    obtain ⟨seed', hseed', hle⟩ := exists_frontOf_ge eligible
    exact ⟨.ofSeed seed', List.mem_map_of_mem hseed', hle⟩
  · rw [List.pairwise_map]
    exact pairwise_frontOf CharmSeed.signature (q.seedChoices c)

theorem step (hcutoffs : q.requirements.cutoffs = ∅)
    (huseful : c.decorationsFor q.requirements = .ok useful) {slot : Slot}
    {table : List SlotEntry} (hslot : q.slotTable c useful slot = .ok table)
    (h : IsFront q c useful slots sets) :
    IsFront q c useful (slots ++ [slot]) (ArmourSet.nextFront c q.requirements sets table) := by
  obtain ⟨entries, hentries, htable⟩ := Request.slotTable_eq_ok hslot
  constructor
  · exact Request.exists_choice_of_mem_nextFront hslot h.chosen
  · intro x
    obtain ⟨y, e, he, rfl⟩ := x.exists_snoc
    obtain ⟨first, hfirst, hle⟩ := h.covers y
    obtain ⟨e', he', hle'⟩ := exists_frontOf_ge ((hentries e).2 he)
    rw [← htable] at he'
    have hwithin : q.requirements.withinCutoffs
        (SetPieces.merge first.signature.pieces e'.signature.pieces) = true := by
      rw [Requirements.withinCutoffs, hcutoffs]
      rfl
    have hmem : first.wear c e' ∈ ArmourSet.extensions c q.requirements sets table :=
      ArmourSet.mem_extensions.2 ⟨first, hfirst, e', he', hwithin, rfl⟩
    obtain ⟨s, hs, hge⟩ := exists_frontOf_ge hmem
    obtain ⟨z, rfl⟩ := h.chosen first hfirst
    have hfirstWithin : z.set.signature.Within c.skills q.requirements := by
      rw [z.signature_set]
      exact z.within huseful
    have hmerge : y.signature.merge c.skills e.signature ≤
        z.set.signature.merge c.skills e'.signature :=
      (y.within huseful).merge_mono hfirstWithin hle hle'
    rw [y.signature_snoc]
    exact ⟨s, hs, hmerge.trans hge⟩
  · exact pairwise_frontOf _ _

theorem run (hcutoffs : q.requirements.cutoffs = ∅)
    (huseful : c.decorationsFor q.requirements = .ok useful) {rest : List Slot}
    {tables : List (List SlotEntry)}
    (hruns : List.Forall₂ (fun slot table => q.slotTable c useful slot = .ok table) rest tables)
    (h : IsFront q c useful slots sets) :
    IsFront q c useful (slots ++ rest)
      (tables.foldl (ArmourSet.nextFront c q.requirements) sets) := by
  induction hruns generalizing slots sets with
  | nil =>
      rw [List.append_nil]
      exact h
  | @cons slot table rest tables hslot _ ih =>
      have hrest := ih (h.step hcutoffs huseful hslot)
      rwa [List.append_assoc] at hrest

end IsFront

namespace Request

variable {d : RequestDraft} {layout : Option Layout} {tables : List (List SlotEntry)}

end Request

end Loadout
