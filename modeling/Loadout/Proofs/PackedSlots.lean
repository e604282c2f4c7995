import Loadout.Gear
import Loadout.Packing
import Loadout.Proofs.CappedSums
import Loadout.Proofs.SuccessfulRun
import Mathlib.Data.List.Count
import Mathlib.Data.List.Forall2
import Mathlib.Data.Nat.Basic

/-!
# Packed slots

A packing comes from a list of useful decorations, one for each slot and none larger than its slot,
and its levels are the given ones with all relevant levels of these decorations.  Whether sizes fit
slots only depends on how many of them reach each size, so the fits of several pieces add up to one
fit of all their decorations.
-/

namespace Loadout

theorem Fault.stepsOver_eq_ok_iff {distance step n : Nat} :
    stepsOver distance step = .ok n ↔ step ≠ 0 ∧ (distance + step - 1) / step = n := by
  unfold stepsOver
  split <;> grind

namespace UsefulDecoration

/-- Whether none of the levels that a decoration gives is empty. -/
def GivesLevels (u : UsefulDecoration) : Prop := ∀ l ∈ u.levels, l.2 ≠ 0

/-- The copies after which a skill takes no more of what each copy gives it. -/
def copiesOf (t : SkillTable) (levels : SkillLevels) (l : SkillId × Nat) : Nat :=
  (t.cap l.1 - levels.count l.1 + l.2 - 1) / l.2

def mostCopies (t : SkillTable) (levels : SkillLevels) (u : UsefulDecoration) : Nat :=
  u.levels.foldl (fun most l => max most (copiesOf t levels l)) 0

variable {t : SkillTable} {levels : SkillLevels} {u : UsefulDecoration}

theorem usefulCopies_eq_ok_iff {n : Nat} :
    u.usefulCopies t levels = .ok n ↔ u.GivesLevels ∧ u.mostCopies t levels = n := by
  have hfold : ∀ (grants : List (SkillId × Nat)) (most : Nat),
      grants.foldlM (fun most l => do
        return max most (← Fault.stepsOver (t.cap l.1 - levels.count l.1) l.2)) most = .ok n ↔
          (∀ l ∈ grants, l.2 ≠ 0) ∧
            grants.foldl (fun most l => max most (copiesOf t levels l)) most = n := by
    intro grants
    induction grants with
    | nil => simp [pure, Except.pure]
    | cons l rest ih =>
        intro most
        rw [List.foldlM_cons, SuccessfulRun.bind_eq_ok_iff, List.forall_mem_cons, List.foldl_cons]
        constructor
        · rintro ⟨next, hnext, hrest⟩
          obtain ⟨steps, hsteps, hnext⟩ := SuccessfulRun.bind_eq_ok_iff.1 hnext
          obtain ⟨hstep, rfl⟩ := Fault.stepsOver_eq_ok_iff.1 hsteps
          cases hnext
          obtain ⟨hsteps, hmost⟩ := (ih _).1 hrest
          exact ⟨⟨hstep, hsteps⟩, hmost⟩
        · rintro ⟨⟨hstep, hrest⟩, hmost⟩
          have hsteps : Fault.stepsOver (t.cap l.1 - levels.count l.1) l.2 =
              .ok (copiesOf t levels l) := Fault.stepsOver_eq_ok_iff.2 ⟨hstep, rfl⟩
          exact ⟨_, SuccessfulRun.bind_eq_ok_iff.2 ⟨_, hsteps, rfl⟩, (ih _).2 ⟨hrest, hmost⟩⟩
  exact hfold u.levels 0

theorem gainCopies_eq (t : SkillTable) (u : UsefulDecoration) (n : Nat) (levels : SkillLevels) :
    u.gainCopies t n levels =
      levels.gainAll t ((List.replicate n u).flatMap UsefulDecoration.levels) := by
  induction n generalizing levels with
  | zero => rfl
  | succ n ih =>
      have hcopy := ih (levels.gainAll t u.levels)
      rw [gainCopies, hcopy, List.replicate_succ, List.flatMap_cons]
      simp only [SkillLevels.gainAll_eq_raiseAll, Tally.raiseAll_append]

end UsefulDecoration

namespace Packing

/-- The lists of decorations that packings consist of, in the order of the packings. -/
def choices (t : SkillTable) :
    List UsefulDecoration → List Nat → SkillLevels → List (List UsefulDecoration)
  | [], slots, _ => if slots.isEmpty then [[]] else []
  | u :: rest, slots, levels =>
      let most := min (u.mostCopies t levels) (slots.takeWhile (u.size ≤ ·)).length
      (List.range (most + 1)).flatMap fun n =>
        (choices t rest (slots.drop n) (u.gainCopies t n levels)).map (List.replicate n u ++ ·)

def ofChosen (t : SkillTable) (levels : SkillLevels) (chosen : List UsefulDecoration) : Packing :=
  ⟨chosen.map (·.id), levels.gainAll t (chosen.flatMap (·.levels))⟩

variable {t : SkillTable} {useful : List UsefulDecoration} {slots : List Nat}
variable {levels : SkillLevels} {packings : List Packing}

theorem withCopies_ofChosen (t : SkillTable) (levels : SkillLevels) (u : UsefulDecoration) (n : Nat)
    (chosen : List UsefulDecoration) :
    withCopies n u.id (ofChosen t (u.gainCopies t n levels) chosen) =
      ofChosen t levels (List.replicate n u ++ chosen) := by
  simp [withCopies, ofChosen, UsefulDecoration.gainCopies_eq, SkillLevels.gainAll_eq_raiseAll,
    Tally.raiseAll_append]

/-- Packing only fails at an empty level, wherever this is met, and otherwise lists all choices. -/
theorem all_eq_ok_iff :
    all t useful slots levels = .ok packings ↔
      (∀ u ∈ useful, u.GivesLevels) ∧
        (choices t useful slots levels).map (ofChosen t levels) = packings := by
  induction useful generalizing slots levels packings with
  | nil =>
      cases slots with
      | nil => simp [all, choices, ofChosen, SkillLevels.gainAll]
      | cons size rest => simp [all, choices]
  | cons u rest ih =>
      have hbehind : ∀ n list,
          (all t rest (slots.drop n) (u.gainCopies t n levels) >>= fun others =>
            .ok (others.map (withCopies n u.id))) = .ok list ↔
            (∀ u ∈ rest, u.GivesLevels) ∧
              ((choices t rest (slots.drop n) (u.gainCopies t n levels)).map
                (List.replicate n u ++ ·)).map (ofChosen t levels) = list := by
        intro n list
        simp [SuccessfulRun.bind_eq_ok_iff, ih, Function.comp_def, withCopies_ofChosen, and_assoc]
      have hrange : ∀ most, List.range (most + 1) ≠ [] := fun most =>
        List.ne_nil_of_mem (List.mem_range.2 (Nat.succ_pos most))
      rw [all, SuccessfulRun.bind_eq_ok_iff, List.forall_mem_cons, choices, List.map_flatMap]
      constructor
      · rintro ⟨copies, hcopies, h⟩
        obtain ⟨lists, hlists, h⟩ := SuccessfulRun.bind_eq_ok_iff.1 h
        obtain ⟨hu, rfl⟩ := UsefulDecoration.usefulCopies_eq_ok_iff.1 hcopies
        obtain ⟨hrest, rfl⟩ :=
          (SuccessfulRun.mapM_eq_ok_iff_of_forall hbehind (hrange _)).1 hlists
        cases h
        exact ⟨⟨hu, hrest⟩, rfl⟩
      · rintro ⟨⟨hu, hrest⟩, rfl⟩
        refine ⟨_, UsefulDecoration.usefulCopies_eq_ok_iff.2 ⟨hu, rfl⟩, ?_⟩
        exact SuccessfulRun.bind_eq_ok_iff.2
          ⟨_, (SuccessfulRun.mapM_eq_ok_iff_of_forall hbehind (hrange _)).2 ⟨hrest, rfl⟩, rfl⟩

/-- Whether there are packings at all does not depend on the slots and on the levels below. -/
theorem exists_all_iff :
    (∃ packings, all t useful slots levels = .ok packings) ↔ ∀ u ∈ useful, u.GivesLevels := by
  simp only [all_eq_ok_iff, exists_and_left, exists_eq', and_true]

/-- Whether a packing of slots on top of given levels consists of the chosen decorations, in their
order. -/
structure FilledBy (t : SkillTable) (slots : List Nat) (levels : SkillLevels) (p : Packing)
    (chosen : List UsefulDecoration) : Prop where
  decorations : p.decorations = chosen.map (·.id)
  fits : List.Forall₂ (fun u size => u.size ≤ size) chosen slots
  levels : p.levels = levels.gainAll t (chosen.flatMap (·.levels))

/-- Copies in front fill the first slots, which are all large enough, and no others. -/
theorem fits_copies_append_iff {u : UsefulDecoration} {n : Nat} {chosen : List UsefulDecoration} :
    List.Forall₂ (fun u size => u.size ≤ size) (List.replicate n u ++ chosen) slots ↔
      n ≤ (slots.takeWhile (u.size ≤ ·)).length ∧
        List.Forall₂ (fun u size => u.size ≤ size) chosen (slots.drop n) := by
  induction n generalizing slots with
  | zero => simp
  | succ n ih =>
      rw [List.replicate_succ, List.cons_append, List.forall₂_cons_left_iff]
      cases slots with
      | nil => simp
      | cons size rest =>
          by_cases hsize : u.size ≤ size
          · simp [hsize, ih]
          · simp [hsize]

theorem mem_choices_nil_iff {chosen : List UsefulDecoration} :
    chosen ∈ choices t [] slots levels ↔ chosen = [] ∧ slots = [] := by
  cases slots with
  | nil => simp [choices]
  | cons size rest => simp [choices]

theorem mem_choices_cons_iff {u : UsefulDecoration} {rest chosen : List UsefulDecoration} :
    chosen ∈ choices t (u :: rest) slots levels ↔
      ∃ n, n ≤ u.mostCopies t levels ∧ n ≤ (slots.takeWhile (u.size ≤ ·)).length ∧
        ∃ others ∈ choices t rest (slots.drop n) (u.gainCopies t n levels),
          List.replicate n u ++ others = chosen := by
  simp only [choices, List.mem_flatMap, List.mem_range, Nat.lt_succ_iff, Nat.le_min, List.mem_map,
    and_assoc]

theorem mem_of_mem_copies_append {u v : UsefulDecoration} {n : Nat}
    {rest chosen : List UsefulDecoration} (h : ∀ v ∈ chosen, v ∈ rest)
    (hv : v ∈ List.replicate n u ++ chosen) : v ∈ u :: rest := by
  rcases List.mem_append.1 hv with hv | hv
  · rw [List.eq_of_mem_replicate hv]
    exact List.mem_cons_self
  · exact List.mem_cons_of_mem u (h v hv)

theorem fits_of_mem_choices {chosen : List UsefulDecoration}
    (h : chosen ∈ choices t useful slots levels) :
    (∀ u ∈ chosen, u ∈ useful) ∧ List.Forall₂ (fun u size => u.size ≤ size) chosen slots := by
  induction useful generalizing slots levels chosen with
  | nil =>
      obtain ⟨rfl, rfl⟩ := mem_choices_nil_iff.1 h
      simp
  | cons u rest ih =>
      obtain ⟨n, -, hfitting, others, hothers, rfl⟩ := mem_choices_cons_iff.1 h
      obtain ⟨hmem, hfits⟩ := ih hothers
      exact ⟨fun v hv => mem_of_mem_copies_append hmem hv,
        fits_copies_append_iff.2 ⟨hfitting, hfits⟩⟩

theorem exists_filledBy (h : all t useful slots levels = .ok packings) {p : Packing}
    (hp : p ∈ packings) :
    ∃ chosen, (∀ u ∈ chosen, u ∈ useful) ∧ p.FilledBy t slots levels chosen := by
  obtain ⟨-, rfl⟩ := all_eq_ok_iff.1 h
  obtain ⟨chosen, hchosen, rfl⟩ := List.mem_map.1 hp
  obtain ⟨hmem, hfits⟩ := fits_of_mem_choices hchosen
  exact ⟨chosen, hmem, rfl, hfits, rfl⟩

end Packing

/-- How many of some sizes reach a given one. -/
def countFrom (sizes : List Nat) (size : Nat) : Nat := sizes.countP (size ≤ ·)

@[simp] theorem countFrom_append (sizes others : List Nat) (size : Nat) :
    countFrom (sizes ++ others) size = countFrom sizes size + countFrom others size :=
  List.countP_append

theorem countFrom_perm {sizes others : List Nat} (h : sizes.Perm others) (size : Nat) :
    countFrom sizes size = countFrom others size := h.countP_eq _

theorem descending_perm (sizes : List Nat) : (descending sizes).Perm sizes :=
  List.mergeSort_perm sizes _

theorem pairwise_descending (sizes : List Nat) : (descending sizes).Pairwise fun a b => b ≤ a := by
  have htrans : ∀ a b c : Nat, decide (b ≤ a) = true → decide (c ≤ b) = true →
      decide (c ≤ a) = true := by
    intro a b c
    simp
    omega
  have htotal : ∀ a b : Nat, (decide (b ≤ a) || decide (a ≤ b)) = true := by
    intro a b
    simp
    omega
  have hsorted := List.pairwise_mergeSort htrans htotal sizes
  apply hsorted.imp
  simp

theorem descending_congr {sizes others : List Nat} (h : sizes.Perm others) :
    descending sizes = descending others := by
  have hperm := (descending_perm sizes).trans (h.trans (descending_perm others).symm)
  exact hperm.eq_of_pairwise (fun a b _ _ hba hab => Nat.le_antisymm hab hba)
    (pairwise_descending sizes) (pairwise_descending others)

theorem countFrom_le_of_forall₂ {sizes slots : List Nat} (h : List.Forall₂ (· ≤ ·) sizes slots)
    (size : Nat) : countFrom sizes size ≤ countFrom slots size := by
  induction h with
  | nil => simp
  | @cons a b as bs hab _ ih =>
      simp only [countFrom, List.countP_cons] at ih ⊢
      by_cases ha : size ≤ a
      · have hb := ha.trans hab
        simp [ha, hb, ih]
      · simp [ha]
        omega

namespace Catalogue

/-- Sizes in descending order are covered one by one if at least as many slots reach each size. -/
theorem zip_le_of_countFrom_le {sizes slots : List Nat} (hsizes : sizes.Pairwise fun a b => b ≤ a)
    (hslots : slots.Pairwise fun a b => b ≤ a)
    (h : ∀ size, countFrom sizes size ≤ countFrom slots size) :
    sizes.length ≤ slots.length ∧ (sizes.zip slots).all fun p => p.1 ≤ p.2 := by
  induction sizes generalizing slots with
  | nil => simp
  | cons a as ih =>
      obtain ⟨ha, has⟩ := List.pairwise_cons.1 hsizes
      have hreach : 0 < countFrom slots a := by
        have hfirst : 0 < countFrom (a :: as) a := by simp [countFrom]
        exact hfirst.trans_le (h a)
      obtain ⟨b', hb', hab'⟩ := List.countP_pos_iff.1 hreach
      cases slots with
      | nil => cases hb'
      | cons b bs =>
          obtain ⟨hb, hbs⟩ := List.pairwise_cons.1 hslots
          have hab : a ≤ b := by
            have hlarge : a ≤ b' := by simpa using hab'
            rcases List.mem_cons.1 hb' with rfl | hmem
            · exact hlarge
            · exact hlarge.trans (hb b' hmem)
          have hrest : ∀ size, countFrom as size ≤ countFrom bs size := by
            intro size
            by_cases hsize : size ≤ a
            · have hcounts := h size
              have hsizeb : size ≤ b := hsize.trans hab
              simpa [countFrom, List.countP_cons, hsize, hsizeb] using hcounts
            · -- no later size is larger than the first one
              have hnone : countFrom as size = 0 := by
                rw [countFrom, List.countP_eq_zero]
                intro x hx
                have hxa := ha x hx
                simp
                omega
              omega
          obtain ⟨hlength, hall⟩ := ih has hbs hrest
          constructor
          · simpa using hlength
          · simpa [hab] using hall

theorem sizesFit_of_countFrom_le {sizes slots : List Nat}
    (h : ∀ size, countFrom sizes size ≤ countFrom slots size) : sizesFit sizes slots = true := by
  have hcounts : ∀ size, countFrom (descending sizes) size ≤ countFrom (descending slots) size := by
    intro size
    rw [countFrom_perm (descending_perm sizes), countFrom_perm (descending_perm slots)]
    exact h size
  obtain ⟨hlength, hall⟩ := zip_le_of_countFrom_le (pairwise_descending sizes)
    (pairwise_descending slots) hcounts
  rw [(descending_perm sizes).length_eq, (descending_perm slots).length_eq] at hlength
  simp [sizesFit, hlength, hall]

theorem sizesFit_congr {sizes others slots : List Nat} (h : sizes.Perm others) :
    sizesFit sizes slots = sizesFit others slots := by
  rw [sizesFit, sizesFit, h.length_eq, descending_congr h]

end Catalogue

end Loadout
