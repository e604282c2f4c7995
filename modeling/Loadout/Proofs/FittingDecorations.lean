import Loadout.Proofs.ReportedBuilds
import Loadout.Proofs.WornGear

/-!
# Fitting decorations

The decorations of a build are packed piece by piece, and those of the weapon apart.  At each place
no more decorations than slots reach any size, and such counts add up, so all decorations of a build
fit all of its slots taken together.
-/

namespace Loadout

theorem countFrom_flatMap_le {α : Type} {sizes slots : α → List Nat} {items : List α} (size : Nat)
    (h : ∀ a ∈ items, countFrom (sizes a) size ≤ countFrom (slots a) size) :
    countFrom (items.flatMap sizes) size ≤ countFrom (items.flatMap slots) size := by
  induction items with
  | nil => simp
  | cons a rest ih =>
      have hfirst := h a (by simp)
      have hrest := ih fun b hb => h b (by simp [hb])
      simp only [List.flatMap_cons, countFrom_append]
      exact Nat.add_le_add hfirst hrest

def Catalogue.sizesOf (c : Catalogue) (decorations : List DecorationId) : List Nat :=
  decorations.map fun d => (c.decoration d).slotSize

variable {q : Request} {c : Catalogue} {useful : List UsefulDecoration}

theorem Request.countFrom_sizesOf_le (hc : c.FitsHandles)
    (huseful : c.decorationsFor q.requirements = .ok useful) {chosen : List UsefulDecoration}
    (hchosen : ∀ u ∈ chosen, u ∈ useful) {slots : List Nat}
    (hfits : List.Forall₂ (fun u size => u.size ≤ size) chosen slots) (size : Nat) :
    countFrom (c.sizesOf (chosen.map (·.id))) size ≤ countFrom slots size := by
  have hsizes : c.sizesOf (chosen.map (·.id)) = chosen.map (·.size) := by
    rw [Catalogue.sizesOf, List.map_map]
    apply List.map_congr_left
    intro u hu
    obtain ⟨-, -, heq⟩ := decoration_of_mem_useful hc huseful (hchosen u hu)
    exact (congrArg UsefulDecoration.size heq).symm
  rw [hsizes]
  exact countFrom_le_of_forall₂ (List.forall₂_map_left_iff.2 hfits) size

theorem Choice.countFrom_decorations_le (hc : c.FitsHandles)
    (huseful : c.decorationsFor q.requirements = .ok useful) (x : Choice q c useful Slot.all)
    (size : Nat) :
    countFrom (c.sizesOf x.set.decorations) size ≤ countFrom (x.set.outfit.slots c) size := by
  have hdecorations : c.sizesOf x.set.decorations =
      x.entries.flatMap fun e => c.sizesOf e.decorations := by
    rw [x.decorations_set, Catalogue.sizesOf, List.map_flatMap]
    rfl
  have hslots : x.set.outfit.pieces.flatMap (fun p => (c.piece p).decoSlots) =
      x.entries.flatMap fun e => (c.piece e.piece).decoSlots := by
    rw [x.pieces_set hc huseful, List.flatMap_map]
  rw [Outfit.slots, countFrom_perm (descending_perm _), hslots, hdecorations]
  -- one assignment of decorations to slots is never formed: the counts of the pieces add up
  apply countFrom_flatMap_le
  intro e he
  obtain ⟨slot, -, hslot⟩ := SuccessfulRun.exists_item x.allowed he
  obtain ⟨p, -, -, chosen, hmade⟩ := hslot.exists_madeOf huseful
  rw [hmade.decorations]
  exact Request.countFrom_sizesOf_le hc huseful hmade.useful hmade.fits size

variable {R : Type} [Reckoning R] {f : Find R} {x : Choice q c useful Slot.all} {w : Candidate R}
variable {stats : WeaponStats} {p : Packing} {chosen : List UsefulDecoration}

theorem Request.BuildOf.decorationsFit (hc : c.FitsHandles)
    (h : q.BuildOf c f useful x w stats p chosen) :
    c.decorationsFit f.outfit stats f.decorations = true := by
  have hslots : w.stats.slots = stats.slots := by rw [h.candidate.counted]; rfl
  have hsizes : c.sizesOf f.decorations =
      c.sizesOf x.set.decorations ++ c.sizesOf p.decorations := by
    rw [h.found.decorations, Catalogue.sizesOf, List.map_append]
    rfl
  apply Catalogue.sizesFit_of_countFrom_le
  intro size
  have harmour := x.countFrom_decorations_le hc h.listed size
  have hweapon := countFrom_sizesOf_le hc h.listed h.fromListed h.filled.fits size
  rw [← h.filled.decorations, hslots] at hweapon
  change countFrom (c.sizesOf f.decorations) size ≤ _
  rw [hsizes, h.found.outfit, countFrom_append, countFrom_append]
  exact Nat.add_le_add harmour hweapon

end Loadout
