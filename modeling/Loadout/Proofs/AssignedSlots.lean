import Loadout.Proofs.AcceptedRequests
import Loadout.Proofs.PackedSlots
import Mathlib.Data.List.FinRange
import Mathlib.Data.List.Perm.Subperm

/-!
# Decorations assigned to slots

Whether decorations fit is read off two sorted lists of sizes, position by position, and no
decoration is ever given a slot.  The answer is still exact.  An assignment, from any size up, uses
no more slots than there are; and if the sorted lists fit, undoing both sorts turns their positions
into an assignment.
-/

namespace Loadout

open Std

/-- A decoration slot, told apart from others by what it is in and by its place there. -/
inductive OpenSlot where
  | worn (slot : Slot) (place : Nat)
  | weapon (place : Nat)
  deriving DecidableEq

namespace Catalogue

theorem forall₂_take_of_sizesFit {sizes slots : List Nat} (h : sizesFit sizes slots = true) :
    List.Forall₂ (· ≤ ·) (descending sizes) ((descending slots).take sizes.length) := by
  obtain ⟨hlength, hall⟩ : sizes.length ≤ slots.length ∧
      ((descending sizes).zip (descending slots)).all (fun p => p.1 ≤ p.2) = true := by
    simpa [sizesFit] using h
  have hsizes := (descending_perm sizes).length_eq
  have hslots := (descending_perm slots).length_eq
  have hzip : (descending sizes).zip ((descending slots).take sizes.length) =
      (descending sizes).zip (descending slots) := by
    conv_rhs => rw [List.zip_eq_zip_take_min]
    rw [hsizes, hslots, Nat.min_eq_left hlength, ← hsizes, List.take_length]
  apply List.forall₂_iff_zip.2
  constructor
  · rw [List.length_take, hsizes, hslots, Nat.min_eq_left hlength]
  · intro size slot hmem
    rw [hzip] at hmem
    simpa using List.all_eq_true.1 hall _ hmem

variable {α β : Type} {items : List β} {sizeOf : β → Nat} {openings : List (α × Nat)}

/-- The sorted lists fit exactly if some of the slots can be laid beside the items as they come. -/
theorem sizesFit_iff_exists_subperm :
    sizesFit (items.map sizeOf) (openings.map (·.2)) = true ↔
      ∃ chosen, chosen.Subperm openings ∧
        List.Forall₂ (fun item opening => sizeOf item ≤ opening.2) items chosen := by
  constructor
  · intro h
    -- the slots in the order into which their sizes were sorted
    obtain ⟨sorted, hsorted, hopenings⟩ :=
      List.perm_comp_forall₂ (descending_perm (openings.map (·.2)))
        (List.forall₂_map_left_iff.2 (List.forall₂_same.2 fun _ _ => rfl) :
          List.Forall₂ (fun size opening => size = opening.2) (openings.map (·.2)) openings)
    have hslots : descending (openings.map (·.2)) = sorted.map (·.2) := by
      rw [← List.forall₂_eq_eq_eq]
      exact List.forall₂_map_right_iff.2 hsorted
    have hfront := forall₂_take_of_sizesFit h
    rw [hslots, ← List.map_take, List.forall₂_map_right_iff] at hfront
    obtain ⟨chosen, hchosen, htaken⟩ :=
      List.perm_comp_forall₂ (descending_perm (items.map sizeOf)).symm hfront
    have hsub : chosen.Subperm sorted := htaken.subperm.trans (List.take_sublist _ _).subperm
    exact ⟨chosen, hsub.trans hopenings.subperm, List.forall₂_map_left_iff.1 hchosen⟩
  · rintro ⟨chosen, hsub, hchosen⟩
    apply sizesFit_of_countFrom_le
    intro size
    have hcovered : List.Forall₂ (· ≤ ·) (items.map sizeOf) (chosen.map (·.2)) :=
      List.forall₂_map_left_iff.2 (List.forall₂_map_right_iff.2 hchosen)
    calc countFrom (items.map sizeOf) size
        ≤ countFrom (chosen.map (·.2)) size := countFrom_le_of_forall₂ hcovered size
      _ ≤ countFrom (openings.map (·.2)) size := by
          simp only [countFrom, List.countP_map]
          exact hsub.countP_le _

/-- Laying slots beside items is assigning to each item a slot of its own. -/
theorem exists_subperm_iff_exists_injective (hnodup : (openings.map (·.1)).Nodup) :
    (∃ chosen, chosen.Subperm openings ∧
        List.Forall₂ (fun item opening => sizeOf item ≤ opening.2) items chosen) ↔
      ∃ place : Fin items.length → α, Function.Injective place ∧
        ∀ i, ∃ size, (place i, size) ∈ openings ∧ sizeOf items[i] ≤ size := by
  constructor
  · rintro ⟨chosen, ⟨front, hfront, hsub⟩, hchosen⟩
    obtain ⟨hlength, hall⟩ := List.forall₂_iff_get.1 hchosen
    have hdistinct : (chosen.map (·.1)).Nodup :=
      (hfront.map _).nodup_iff.1 (hnodup.sublist (hsub.map _))
    refine ⟨fun i => (chosen.get (i.cast hlength)).1, ?_, ?_⟩
    · intro i j hij
      have hsame := List.inj_on_of_nodup_map hdistinct (List.get_mem chosen _)
        (List.get_mem chosen _) hij
      simpa using (List.Nodup.of_map _ hdistinct).injective_get hsame
    · intro i
      refine ⟨(chosen.get (i.cast hlength)).2, ?_, ?_⟩
      · exact hsub.subset (hfront.mem_iff.2 (List.get_mem chosen _))
      · exact hall i.1 i.2 (hlength ▸ i.2)
  · rintro ⟨place, hinjective, hplaced⟩
    choose slotSize hmem hle using hplaced
    refine ⟨List.ofFn fun i => (place i, slotSize i), ?_, ?_⟩
    · apply List.subperm_of_subset
      · apply List.nodup_ofFn.2
        intro i j hij
        exact hinjective (congrArg Prod.fst hij)
      · intro opening hopening
        obtain ⟨i, rfl⟩ := List.mem_ofFn.1 hopening
        exact hmem i
    · apply List.forall₂_iff_get.2
      constructor
      · simp
      · intro i hi _
        simpa using hle ⟨i, hi⟩

/-- The slots of a piece or a weapon, numbered from 0 on. -/
def numberedSlots (name : Nat → OpenSlot) (sizes : List Nat) : List (OpenSlot × Nat) :=
  sizes.zipIdx.map fun s => (name s.2, s.1)

theorem mem_numberedSlots_iff {name : Nat → OpenSlot} {sizes : List Nat} {slot : OpenSlot}
    {size : Nat} : (slot, size) ∈ numberedSlots name sizes ↔
      ∃ place, name place = slot ∧ sizes[place]? = some size := by
  simp only [numberedSlots, List.mem_map, Prod.exists, Prod.mk.injEq,
    List.mk_mem_zipIdx_iff_getElem?]
  grind

theorem map_snd_numberedSlots (name : Nat → OpenSlot) (sizes : List Nat) :
    (numberedSlots name sizes).map (·.2) = sizes := by
  rw [numberedSlots, List.map_map]
  exact List.zipIdx_map_fst 0 sizes

theorem map_fst_numberedSlots (name : Nat → OpenSlot) (sizes : List Nat) :
    (numberedSlots name sizes).map (·.1) = (List.range sizes.length).map name := by
  have hplaces : (numberedSlots name sizes).map (·.1) = (sizes.zipIdx.map (·.2)).map name := by
    rw [numberedSlots, List.map_map, List.map_map]
    rfl
  rw [hplaces, List.zipIdx_map_snd, List.range_eq_range']

section Gear

variable (c : Catalogue) (o : Outfit) (stats : WeaponStats)

/-- The size of a slot, if a worn piece or the weapon has it. -/
def openSize? : OpenSlot → Option Nat
  | .worn slot place => (o.piece? slot).bind fun p => (c.piece p).decoSlots[place]?
  | .weapon place => stats.slots[place]?

/-- All open slots with their sizes. -/
def openSlots : List (OpenSlot × Nat) :=
  (o.worn.entries.flatMap fun e => numberedSlots (.worn e.1) (c.piece e.2).decoSlots) ++
    numberedSlots .weapon stats.slots

theorem mem_openSlots_iff {slot : OpenSlot} {size : Nat} :
    (slot, size) ∈ c.openSlots o stats ↔ c.openSize? o stats slot = some size := by
  rw [openSlots, List.mem_append, List.mem_flatMap]
  simp only [mem_numberedSlots_iff]
  cases slot with
  | worn slot place =>
      simp only [openSize?, Option.bind_eq_some_iff, Outfit.piece?, OrderedMap.get?_eq_some_iff]
      constructor
      · rintro (⟨⟨slot, p⟩, hworn, place, ⟨⟩, hsize⟩ | ⟨place, ⟨⟩, -⟩)
        exact ⟨p, hworn, hsize⟩
      · rintro ⟨p, hworn, hsize⟩
        exact .inl ⟨(slot, p), hworn, place, rfl, hsize⟩
  | weapon place => simp [openSize?]

theorem map_snd_openSlots :
    ((c.openSlots o stats).map (·.2)).Perm (o.slots c ++ stats.slots) := by
  have hpieces : (o.pieces.flatMap fun p => (c.piece p).decoSlots).Perm (o.slots c) :=
    (descending_perm _).symm
  rw [Outfit.pieces, List.flatMap_map] at hpieces
  simp only [openSlots, List.map_append, List.map_flatMap, map_snd_numberedSlots]
  exact hpieces.append_right _

theorem nodup_openSlots : ((c.openSlots o stats).map (·.1)).Nodup := by
  have hpieces : (o.worn.entries.flatMap fun e =>
      (List.range (c.piece e.2).decoSlots.length).map (OpenSlot.worn e.1)).Nodup := by
    apply List.nodup_flatMap.2
    constructor
    · intro e _
      exact List.nodup_range.map fun a b hab => (OpenSlot.worn.inj hab).2
    · -- one piece for each slot of the body
      have hkeys := o.worn.nodup_keys
      rw [OrderedMap.keys, List.Nodup, List.pairwise_map] at hkeys
      apply hkeys.imp
      intro d e hne slot hd he
      obtain ⟨_, -, rfl⟩ := List.mem_map.1 hd
      obtain ⟨_, -, heq⟩ := List.mem_map.1 he
      exact hne (OpenSlot.worn.inj heq).1.symm
  have hweapon : ((List.range stats.slots.length).map OpenSlot.weapon).Nodup :=
    List.nodup_range.map fun a b hab => OpenSlot.weapon.inj hab
  simp only [openSlots, List.map_append, List.map_flatMap, map_fst_numberedSlots]
  apply hpieces.append hweapon
  intro slot hworn harmed
  obtain ⟨e, -, hslot⟩ := List.mem_flatMap.1 hworn
  obtain ⟨_, -, rfl⟩ := List.mem_map.1 hslot
  simp at harmed

/-- Whether decorations have open slots of their own that are large enough. -/
structure Assigns (decorations : List DecorationId)
    (place : Fin decorations.length → OpenSlot) : Prop where
  injective : Function.Injective place
  large : ∀ i, ∃ size, c.openSize? o stats (place i) = some size ∧
    (c.decoration decorations[i]).slotSize ≤ size

theorem decorationsFit_iff_assignable (decorations : List DecorationId) :
    c.decorationsFit o stats decorations = true ↔
      ∃ place, c.Assigns o stats decorations place := by
  have hslots : descending (o.slots c ++ stats.slots) =
      descending ((c.openSlots o stats).map (·.2)) :=
    descending_congr (c.map_snd_openSlots o stats).symm
  have hlength := (c.map_snd_openSlots o stats).length_eq
  rw [decorationsFit, sizesFit, hslots, ← hlength]
  change sizesFit (decorations.map fun d => (c.decoration d).slotSize) _ = true ↔ _
  rw [sizesFit_iff_exists_subperm, exists_subperm_iff_exists_injective (c.nodup_openSlots o stats)]
  simp only [mem_openSlots_iff]
  constructor
  · rintro ⟨place, hinjective, hlarge⟩
    exact ⟨place, hinjective, hlarge⟩
  · rintro ⟨place, hassigns⟩
    exact ⟨place, hassigns.injective, hassigns.large⟩

end Gear

end Catalogue

end Loadout
