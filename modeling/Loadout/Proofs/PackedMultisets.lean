import Loadout.Proofs.PackedSlots
import Mathlib.Algebra.BigOperators.Group.Multiset.Basic
import Mathlib.Data.Multiset.Sort

/-!
# Packed multisets

A packing lays its decorations out in the order of packing, so a multiset of decorations has one
layout.  A layout is packed exactly if it fits the slots and each copy in it raises a level when it
is added, and no layout is packed twice.
-/

namespace Loadout

namespace UsefulDecoration

variable {t : SkillTable} {levels : SkillLevels} {u : UsefulDecoration}

/-- Whether a decoration raises one of its skills on top of given levels. -/
def Raises (t : SkillTable) (levels : SkillLevels) (u : UsefulDecoration) : Prop :=
  ∃ l ∈ u.levels, levels.count l.1 < (levels.gainAll t u.levels).count l.1

theorem lt_copiesOf_iff {l : SkillId × Nat} {n : Nat} (hl : l.2 ≠ 0) :
    n < copiesOf t levels l ↔ levels.count l.1 + n * l.2 < t.cap l.1 := by
  rw [copiesOf, Nat.lt_iff_add_one_le, Nat.le_div_iff_mul_le (Nat.pos_of_ne_zero hl), Nat.add_mul]
  omega

theorem lt_mostCopies_iff (hu : u.GivesLevels) {n : Nat} :
    n < u.mostCopies t levels ↔ ∃ l ∈ u.levels, levels.count l.1 + n * l.2 < t.cap l.1 := by
  have hfold : ∀ (grants : List (SkillId × Nat)) (most : Nat),
      n < grants.foldl (fun most l => max most (copiesOf t levels l)) most ↔
        n < most ∨ ∃ l ∈ grants, n < copiesOf t levels l := by
    intro grants
    induction grants with
    | nil => simp
    | cons l rest ih =>
        intro most
        rw [List.foldl_cons, ih, lt_max_iff, or_assoc]
        simp
  rw [mostCopies, hfold]
  simp only [Nat.not_lt_zero, false_or]
  exact exists_congr fun l => and_congr_right fun hl => lt_copiesOf_iff (hu l hl)

theorem count_gainCopies (hcapped : levels.Capped t.cap) (n : Nat) (s : SkillId) :
    (u.gainCopies t n levels).count s =
      min (levels.count s + n * Tally.unitsOf u.levels s) (t.cap s) := by
  rw [gainCopies_eq, SkillLevels.gainAll_eq_raiseAll, hcapped.count_raiseAll,
    Tally.unitsOf_flatMap, List.map_replicate, List.sum_replicate_nat]

theorem capped_gainCopies (hcapped : levels.Capped t.cap) (n : Nat) :
    (u.gainCopies t n levels).Capped t.cap := by
  intro s
  rw [count_gainCopies hcapped]
  exact Nat.min_le_right _ _

/-- A copy raises a level exactly as long as its skills take copies. -/
theorem raises_gainCopies_iff (hu : u.GivesLevels) (hdistinct : (u.levels.map (·.1)).Nodup)
    (hcapped : levels.Capped t.cap) {n : Nat} :
    u.Raises t (u.gainCopies t n levels) ↔ n < u.mostCopies t levels := by
  rw [lt_mostCopies_iff hu]
  apply exists_congr
  intro l
  apply and_congr_right
  intro hl
  have hpos : 0 < l.2 := Nat.pos_of_ne_zero (hu l hl)
  rw [SkillLevels.gainAll_eq_raiseAll, (capped_gainCopies hcapped n).count_raiseAll,
    count_gainCopies hcapped, Tally.unitsOf_eq_of_mem hdistinct hl]
  omega

end UsefulDecoration

namespace Packing

variable {t : SkillTable} {useful : List UsefulDecoration} {slots : List Nat}
variable {levels : SkillLevels} {chosen : List UsefulDecoration}

/-- Whether decorations are copies of the first useful one, then of the next, and so on. -/
inductive LaidOut : List UsefulDecoration → List UsefulDecoration → Prop
  | nil : LaidOut [] []
  | copies {u : UsefulDecoration} {rest chosen : List UsefulDecoration} (n : Nat)
      (h : LaidOut rest chosen) : LaidOut (u :: rest) (List.replicate n u ++ chosen)

theorem LaidOut.mem (h : LaidOut useful chosen) : ∀ u ∈ chosen, u ∈ useful := by
  induction h with
  | nil => simp
  | copies n h ih => exact fun v hv => mem_of_mem_copies_append ih hv

theorem LaidOut.sizes (h : LaidOut useful chosen)
    (hsizes : useful.Pairwise fun a b => b.size ≤ a.size) :
    chosen.Pairwise fun a b => b.size ≤ a.size := by
  induction h with
  | nil => exact .nil
  | copies n h ih =>
      obtain ⟨hfirst, hrest⟩ := List.pairwise_cons.1 hsizes
      refine List.pairwise_append.2 ⟨List.pairwise_replicate.2 (.inr le_rfl), ih hrest, ?_⟩
      intro a ha b hb
      rw [List.eq_of_mem_replicate ha]
      exact hfirst b (h.mem b hb)

/-- Whether every one of some decorations raises one of its skills when they are added in order. -/
def EachRaises (t : SkillTable) : SkillLevels → List UsefulDecoration → Prop
  | _, [] => True
  | levels, u :: rest => u.Raises t levels ∧ EachRaises t (levels.gainAll t u.levels) rest

theorem eachRaises_copies_append_iff {u : UsefulDecoration} {n : Nat} :
    EachRaises t levels (List.replicate n u ++ chosen) ↔
      (∀ m < n, u.Raises t (u.gainCopies t m levels)) ∧
        EachRaises t (u.gainCopies t n levels) chosen := by
  induction n generalizing levels with
  | zero => simp [UsefulDecoration.gainCopies]
  | succ n ih =>
      rw [List.replicate_succ, List.cons_append, EachRaises, ih, Nat.forall_lt_succ_left, and_assoc]
      rfl

/-- The choices are the layouts that fit the slots and raise a level with each copy. -/
theorem mem_choices_iff (hgives : ∀ u ∈ useful, u.GivesLevels)
    (hdistinct : ∀ u ∈ useful, (u.levels.map (·.1)).Nodup) (hcapped : levels.Capped t.cap) :
    chosen ∈ choices t useful slots levels ↔
      LaidOut useful chosen ∧ List.Forall₂ (fun u size => u.size ≤ size) chosen slots ∧
        EachRaises t levels chosen := by
  induction useful generalizing slots levels chosen with
  | nil =>
      rw [mem_choices_nil_iff]
      constructor
      · rintro ⟨rfl, rfl⟩
        exact ⟨.nil, .nil, trivial⟩
      · rintro ⟨hlaid, hfits, -⟩
        cases hlaid
        cases hfits
        exact ⟨rfl, rfl⟩
  | cons u rest ih =>
      obtain ⟨hu, hrest⟩ := List.forall_mem_cons.1 hgives
      obtain ⟨hskills, hothers⟩ := List.forall_mem_cons.1 hdistinct
      have hbehind := fun n chosen => @ih (slots.drop n) (u.gainCopies t n levels) chosen hrest
        hothers (UsefulDecoration.capped_gainCopies hcapped n)
      have hcopies : ∀ n, (∀ m < n, u.Raises t (u.gainCopies t m levels)) ↔
          n ≤ u.mostCopies t levels := by
        intro n
        simp only [UsefulDecoration.raises_gainCopies_iff hu hskills hcapped]
        exact forall_lt_iff_le
      rw [mem_choices_cons_iff]
      constructor
      · rintro ⟨n, hmost, hfitting, others, hmem, rfl⟩
        obtain ⟨hlaid, hfits, hraises⟩ := (hbehind n others).1 hmem
        exact ⟨.copies n hlaid, fits_copies_append_iff.2 ⟨hfitting, hfits⟩,
          eachRaises_copies_append_iff.2 ⟨(hcopies n).2 hmost, hraises⟩⟩
      · rintro ⟨hlaid, hfits, hraises⟩
        cases hlaid with
        | @copies _ _ others n hlaid =>
            obtain ⟨hfitting, hfits⟩ := fits_copies_append_iff.1 hfits
            obtain ⟨hmost, hraises⟩ := eachRaises_copies_append_iff.1 hraises
            exact ⟨n, (hcopies n).1 hmost, hfitting, others,
              (hbehind n others).2 ⟨hlaid, hfits, hraises⟩, rfl⟩

theorem count_copies_append {u : UsefulDecoration} {n : Nat} (hu : u ∉ chosen) :
    (List.replicate n u ++ chosen).count u = n := by
  rw [List.count_append, List.count_replicate_self, List.count_eq_zero_of_not_mem hu, Nat.add_zero]

/-- No choice comes twice, since the copies of a decoration can be counted in it. -/
theorem nodup_choices (hnodup : useful.Nodup) : (choices t useful slots levels).Nodup := by
  induction useful generalizing slots levels with
  | nil =>
      cases slots with
      | nil => exact List.nodup_singleton []
      | cons size rest => exact List.nodup_nil
  | cons u rest ih =>
      obtain ⟨hu, hrest⟩ := List.nodup_cons.1 hnodup
      refine List.nodup_flatMap.2 ⟨?_, ?_⟩
      · intro n _
        exact (ih hrest).map (List.append_right_injective _)
      · refine List.nodup_range.imp ?_
        intro m n hmn
        refine List.disjoint_left.2 ?_
        intro chosen hm hn
        obtain ⟨mine, hmine, rfl⟩ := List.mem_map.1 hm
        obtain ⟨others, hothers, heq⟩ := List.mem_map.1 hn
        have hcopies := congrArg (List.count u) heq
        rw [count_copies_append fun hmem => hu ((fits_of_mem_choices hothers).1 u hmem),
          count_copies_append fun hmem => hu ((fits_of_mem_choices hmine).1 u hmem)] at hcopies
        exact hmn hcopies.symm

/-- The layout of a multiset of useful decorations. -/
def layOut (useful : List UsefulDecoration) (m : Multiset UsefulDecoration) :
    List UsefulDecoration := useful.flatMap fun u => List.replicate (m.count u) u

theorem laidOut_layOut (useful : List UsefulDecoration) (m : Multiset UsefulDecoration) :
    LaidOut useful (layOut useful m) := by
  induction useful with
  | nil => exact .nil
  | cons u rest ih => exact .copies (m.count u) ih

theorem LaidOut.layOut_eq (hnodup : useful.Nodup) (h : LaidOut useful chosen) :
    layOut useful chosen = chosen := by
  induction h with
  | nil => rfl
  | @copies u rest chosen n h ih =>
      obtain ⟨hu, hrest⟩ := List.nodup_cons.1 hnodup
      have hothers : ∀ v ∈ rest, (List.replicate n u ++ chosen).count v = chosen.count v := by
        intro v hv
        have hne : u ≠ v := fun heq => hu (heq ▸ hv)
        simp [List.count_replicate, hne]
      have hcount := count_copies_append (n := n) fun hmem => hu (h.mem u hmem)
      have hlayout := ih hrest
      simp only [layOut, Multiset.coe_count, List.flatMap_cons] at hlayout ⊢
      rw [hcount, List.flatMap_congr fun v hv => by rw [hothers v hv], hlayout]

theorem LaidOut.eq_of_coe_eq (hnodup : useful.Nodup) (h : LaidOut useful chosen)
    {others : List UsefulDecoration} (h' : LaidOut useful others)
    (heq : (chosen : Multiset UsefulDecoration) = others) : chosen = others := by
  rw [← h.layOut_eq hnodup, heq, h'.layOut_eq hnodup]

theorem count_layOut (hnodup : useful.Nodup) (m : Multiset UsefulDecoration)
    (u : UsefulDecoration) : (layOut useful m).count u = if u ∈ useful then m.count u else 0 := by
  induction useful with
  | nil => rfl
  | cons v rest ih =>
      obtain ⟨hv, hrest⟩ := List.nodup_cons.1 hnodup
      have hothers := ih hrest
      rw [layOut] at hothers ⊢
      rw [List.flatMap_cons, List.count_append, hothers, List.count_replicate]
      by_cases huv : v = u
      · subst huv
        simp [hv]
      · simp [huv, Ne.symm huv]

theorem coe_layOut (hnodup : useful.Nodup) {m : Multiset UsefulDecoration}
    (hm : ∀ u ∈ m, u ∈ useful) : (layOut useful m : Multiset UsefulDecoration) = m := by
  ext u
  rw [Multiset.coe_count, count_layOut hnodup]
  split
  next => rfl
  next hu => exact (Multiset.count_eq_zero_of_notMem fun hmem => hu (hm u hmem)).symm

/-- Whether a multiset of useful decorations fills slots, its largest size the first slot and so on,
and raises a level with each of its copies when these are added in the order of packing. -/
structure Fills (t : SkillTable) (useful : List UsefulDecoration) (slots : List Nat)
    (levels : SkillLevels) (m : Multiset UsefulDecoration) : Prop where
  listed : ∀ u ∈ m, u ∈ useful
  card : m.card = slots.length
  fits : ∀ p ∈ ((m.map (·.size)).sort (· ≥ ·)).zip slots, p.1 ≤ p.2
  raises : EachRaises t levels (layOut useful m)

theorem sort_sizes (hsizes : useful.Pairwise fun a b => b.size ≤ a.size)
    (h : LaidOut useful chosen) :
    ((chosen : Multiset UsefulDecoration).map (·.size)).sort (· ≥ ·) = chosen.map (·.size) := by
  rw [Multiset.map_coe, Multiset.coe_sort]
  apply List.mergeSort_eq_self
  exact List.pairwise_map.2 (h.sizes hsizes)

theorem fills_coe_iff (hnodup : useful.Nodup) (hsizes : useful.Pairwise fun a b => b.size ≤ a.size)
    (h : LaidOut useful chosen) :
    Fills t useful slots levels chosen ↔
      List.Forall₂ (fun u size => u.size ≤ size) chosen slots ∧ EachRaises t levels chosen := by
  have hzip : List.Forall₂ (fun u size => u.size ≤ size) chosen slots ↔
      chosen.length = slots.length ∧ ∀ p ∈ (chosen.map (·.size)).zip slots, p.1 ≤ p.2 := by
    rw [← List.forall₂_map_left_iff (R := fun size slot => size ≤ slot), List.forall₂_iff_zip]
    simp
  rw [hzip]
  constructor
  · intro hfills
    have hfits := hfills.fits
    have hraises := hfills.raises
    rw [sort_sizes hsizes h] at hfits
    rw [h.layOut_eq hnodup] at hraises
    exact ⟨⟨by simpa using hfills.card, hfits⟩, hraises⟩
  · rintro ⟨⟨hlength, hfits⟩, hraises⟩
    constructor
    · exact h.mem
    · simpa using hlength
    · rwa [sort_sizes hsizes h]
    · rwa [h.layOut_eq hnodup]

theorem eq_of_ids_eq (hids : (useful.map (·.id)).Nodup) {m m' : Multiset UsefulDecoration}
    (hm : ∀ u ∈ m, u ∈ useful) (hm' : ∀ u ∈ m', u ∈ useful)
    (h : m.map (·.id) = m'.map (·.id)) : m = m' := by
  have hinj : Set.InjOn (fun u : UsefulDecoration => u.id) {u | u ∈ useful} :=
    fun _ hu _ hv heq => List.inj_on_of_nodup_map hids hu hv heq
  have hback : ∀ m : Multiset UsefulDecoration, (∀ u ∈ m, u ∈ useful) →
      (m.map (·.id)).map (Function.invFunOn (fun u => u.id) {u | u ∈ useful}) = m := by
    intro m hm
    rw [Multiset.map_map]
    exact (Multiset.map_congr rfl fun u hu => hinj.leftInvOn_invFunOn (hm u hu)).trans
      (Multiset.map_id m)
  rw [← hback m hm, ← hback m' hm', h]

theorem mem_map_choices_iff (hsizes : useful.Pairwise fun a b => b.size ≤ a.size)
    (hnodup : useful.Nodup) (hgives : ∀ u ∈ useful, u.GivesLevels)
    (hdistinct : ∀ u ∈ useful, (u.levels.map (·.1)).Nodup) (hcapped : levels.Capped t.cap)
    {m : Multiset UsefulDecoration} :
    m ∈ (choices t useful slots levels).map Multiset.ofList ↔
      Fills t useful slots levels m := by
  rw [List.mem_map]
  constructor
  · rintro ⟨chosen, hchosen, rfl⟩
    obtain ⟨hlaid, hpacked⟩ := (mem_choices_iff hgives hdistinct hcapped).1 hchosen
    exact (fills_coe_iff hnodup hsizes hlaid).2 hpacked
  · intro hfills
    have hlaid := laidOut_layOut useful m
    have hm := coe_layOut hnodup hfills.listed
    have hlaidFills : Fills t useful slots levels (layOut useful m) := hm.symm ▸ hfills
    have hpacked := (fills_coe_iff hnodup hsizes hlaid).1 hlaidFills
    exact ⟨layOut useful m, (mem_choices_iff hgives hdistinct hcapped).2 ⟨hlaid, hpacked⟩, hm⟩

theorem count_ofChosen (hcapped : levels.Capped t.cap) (chosen : List UsefulDecoration)
    (s : SkillId) :
    (ofChosen t levels chosen).levels.count s = min (levels.count s +
      ((chosen : Multiset UsefulDecoration).map fun u => Tally.unitsOf u.levels s).sum)
      (t.cap s) := by
  rw [ofChosen, SkillLevels.gainAll_eq_raiseAll, hcapped.count_raiseAll, Tally.unitsOf_flatMap,
    Multiset.map_coe, Multiset.sum_coe]

/-- Packing comes to its end, and the packings are those of all multisets of useful decorations that
fill the slots, each packed once and told from all others by its ids, with the given levels and all
levels of its copies cut at their caps. -/
theorem all_packs_multisets (hsizes : useful.Pairwise fun a b => b.size ≤ a.size)
    (hids : (useful.map (·.id)).Nodup) (hgives : ∀ u ∈ useful, u.GivesLevels)
    (hdistinct : ∀ u ∈ useful, (u.levels.map (·.1)).Nodup) (hcapped : levels.Capped t.cap) :
    ∃ packings, all t useful slots levels = .ok packings ∧
      (packings.map fun p => (p.decorations : Multiset DecorationId)).Nodup ∧
      ∃ ms : List (Multiset UsefulDecoration), ms.Nodup ∧
        (∀ m, m ∈ ms ↔ Fills t useful slots levels m) ∧
        List.Forall₂ (fun m p => (p.decorations : Multiset DecorationId) = m.map (·.id) ∧
          ∀ s, p.levels.count s =
            min (levels.count s + (m.map fun u => Tally.unitsOf u.levels s).sum) (t.cap s))
          ms packings := by
  have hnodup : useful.Nodup := hids.of_map
  have hlaid : ∀ chosen ∈ choices t useful slots levels, LaidOut useful chosen :=
    fun chosen hchosen => ((mem_choices_iff hgives hdistinct hcapped).1 hchosen).1
  refine ⟨_, all_eq_ok_iff.2 ⟨hgives, rfl⟩, ?_,
    (choices t useful slots levels).map Multiset.ofList, ?_, ?_, ?_⟩
  · rw [List.map_map]
    refine (nodup_choices hnodup).map_on ?_
    intro chosen hchosen others hothers heq
    have hsame : (chosen : Multiset UsefulDecoration) = others :=
      eq_of_ids_eq hids (hlaid chosen hchosen).mem (hlaid others hothers).mem heq
    exact (hlaid chosen hchosen).eq_of_coe_eq hnodup (hlaid others hothers) hsame
  · refine (nodup_choices hnodup).map_on ?_
    intro chosen hchosen others hothers heq
    exact (hlaid chosen hchosen).eq_of_coe_eq hnodup (hlaid others hothers) heq
  · intro m
    exact mem_map_choices_iff hsizes hnodup hgives hdistinct hcapped
  · rw [List.forall₂_map_left_iff, List.forall₂_map_right_iff, List.forall₂_same]
    intro chosen _
    exact ⟨rfl, count_ofChosen hcapped chosen⟩

/-- A jewel for two skills, the first of which takes two levels, and a smaller one for the first. -/
def jewelSkills : SkillTable where
  skills := #[⟨"ATTACK_BOOST", "Attack Boost", 2, 2, 3, none⟩,
    ⟨"CRITICAL_EYE", "Critical Eye", 1, 1, 2, none⟩]
  bonuses := #[]
  holder := .ofFunction fun _ => none

def jewels : List UsefulDecoration :=
  [⟨.ofIndex 0, 2, [(.ofIndex 0, 1), (.ofIndex 1, 1)]⟩, ⟨.ofIndex 1, 1, [(.ofIndex 0, 1)]⟩]

theorem all_packs_multisets_jewels :
    ∃ packings, all jewelSkills jewels [2, 1] ∅ = .ok packings ∧ packings.length = 2 ∧
      ∃ ms : List (Multiset UsefulDecoration), ms.length = 2 ∧ ms.Nodup ∧
        ∀ m, m ∈ ms ↔ Fills jewelSkills jewels [2, 1] ∅ m := by
  have hgives : ∀ u ∈ jewels, ∀ l ∈ u.levels, l.2 ≠ 0 := by decide
  have hcapped : (∅ : SkillLevels).Capped jewelSkills.cap := Tally.capped_empty _
  obtain ⟨packings, hpackings, -, ms, hnodup, hfills, hpairs⟩ :=
    @all_packs_multisets jewelSkills jewels [2, 1] ∅ (by decide) (by decide) hgives (by decide)
      hcapped
  have hcount : (all jewelSkills jewels [2, 1] ∅).toOption.map List.length = some 2 := by
    decide +kernel
  rw [hpackings] at hcount
  have hlength : packings.length = 2 := Option.some.inj hcount
  exact ⟨packings, hpackings, hlength, ms, hpairs.length_eq.trans hlength, hnodup, hfills⟩

end Packing

end Loadout
