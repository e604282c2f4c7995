import Loadout.Proofs.RaisedLevels
import Loadout.Weapon.Dominance

/-!
# Dominated weapons

Dominance is a preorder: each of its conditions is.  A dominated weapon never does better at the
same levels, with one exception: its blade may be the blunter one, and bludgeoner gives more to it.
-/

namespace Loadout

namespace WeaponStats

theorem slotsCover_nil (mine : List Nat) : slotsCover mine [] = true := by
  simp [slotsCover]

theorem slotsCover_nil_cons (size : Nat) (theirs : List Nat) :
    slotsCover [] (size :: theirs) = false := by
  simp [slotsCover]

theorem slotsCover_cons_cons {size size' : Nat} {mine theirs : List Nat} :
    slotsCover (size :: mine) (size' :: theirs) = true ↔
      size' ≤ size ∧ slotsCover mine theirs = true := by
  simp only [slotsCover, List.length_cons, List.zip_cons_cons, List.all_cons, Bool.and_eq_true,
    decide_eq_true_iff, Nat.add_le_add_iff_right]
  tauto

theorem slotsCover_refl (slots : List Nat) : slotsCover slots slots = true := by
  induction slots with
  | nil => exact slotsCover_nil []
  | cons size rest ih => exact slotsCover_cons_cons.2 ⟨le_rfl, ih⟩

theorem slotsCover_trans {most middle least : List Nat} (h : slotsCover most middle = true)
    (h' : slotsCover middle least = true) : slotsCover most least = true := by
  induction least generalizing middle most with
  | nil => exact slotsCover_nil most
  | cons size rest ih =>
      cases middle with
      | nil => simp [slotsCover_nil_cons] at h'
      | cons size' rest' =>
          cases most with
          | nil => simp [slotsCover_nil_cons] at h
          | cons size'' rest'' =>
              obtain ⟨hsize, hrest⟩ := slotsCover_cons_cons.1 h
              obtain ⟨hsize', hrest'⟩ := slotsCover_cons_cons.1 h'
              exact slotsCover_cons_cons.2 ⟨hsize'.trans hsize, ih hrest hrest'⟩

theorem gaugeCovers_refl (gauge : Option Gauge) : gaugeCovers gauge gauge = true := by
  cases gauge with
  | none => rfl
  | some g => exact g.covers_refl

theorem gaugeCovers_trans {most middle least : Option Gauge} (h : gaugeCovers most middle = true)
    (h' : gaugeCovers middle least = true) : gaugeCovers most least = true := by
  cases least with
  | none => rfl
  | some g =>
      cases middle with
      | none => simp [gaugeCovers] at h'
      | some g' =>
          cases most with
          | none => simp [gaugeCovers] at h
          | some g'' => exact Gauge.covers_trans h h'

/-- What dominance asks for, condition by condition. -/
structure Dominates (mine theirs : WeaponStats) : Prop where
  raw : theirs.raw ≤ mine.raw
  affinity : theirs.affinity ≤ mine.affinity
  slots : slotsCover mine.slots theirs.slots = true
  skill : theirs.skill = none ∨ mine.skill = theirs.skill
  bonus : theirs.bonus = none ∨ mine.bonus = theirs.bonus
  healthRegen : theirs.healthRegen = true → mine.healthRegen = true
  isRaw : theirs.element.isRaw = true → mine.element.isRaw = true
  constantSharpness : theirs.constantSharpness = true → mine.constantSharpness = true
  gauge : gaugeCovers mine.gauge theirs.gauge = true

theorem dominates_iff {mine theirs : WeaponStats} :
    mine.dominates theirs = true ↔ mine.Dominates theirs := by
  have himplies : ∀ a b : Bool, (!a || b) = true ↔ (a = true → b = true) := by decide
  unfold dominates matchesOption
  simp only [Bool.and_eq_true, Bool.or_eq_true, decide_eq_true_iff, Option.isNone_iff_eq_none,
    himplies, and_assoc]
  constructor
  · rintro ⟨hraw, haffinity, hslots, hskill, hbonus, hregen, hisRaw, hconstant, hgauge⟩
    exact ⟨hraw, haffinity, hslots, hskill, hbonus, hregen, hisRaw, hconstant, hgauge⟩
  · intro h
    exact ⟨h.raw, h.affinity, h.slots, h.skill, h.bonus, h.healthRegen, h.isRaw,
      h.constantSharpness, h.gauge⟩

theorem matches_trans {α : Type} {most middle least : Option α}
    (h : middle = none ∨ most = middle) (h' : least = none ∨ middle = least) :
    least = none ∨ most = least := by
  rcases h' with rfl | rfl
  · exact .inl rfl
  · exact h

theorem dominates_refl (stats : WeaponStats) : stats.dominates stats = true :=
  dominates_iff.2 ⟨le_rfl, le_rfl, slotsCover_refl _, .inr rfl, .inr rfl, id, id, id,
    gaugeCovers_refl _⟩

theorem dominates_trans {most middle least : WeaponStats} (h : most.dominates middle = true)
    (h' : middle.dominates least = true) : most.dominates least = true := by
  have h := dominates_iff.1 h
  have h' := dominates_iff.1 h'
  exact dominates_iff.2 {
    raw := h'.raw.trans h.raw
    affinity := h'.affinity.trans h.affinity
    slots := slotsCover_trans h.slots h'.slots
    skill := matches_trans h.skill h'.skill
    bonus := matches_trans h.bonus h'.bonus
    healthRegen := h.healthRegen ∘ h'.healthRegen
    isRaw := h.isRaw ∘ h'.isRaw
    constantSharpness := h.constantSharpness ∘ h'.constantSharpness
    gauge := gaugeCovers_trans h.gauge h'.gauge }

theorem Dominates.sharper {mine theirs : WeaponStats} (h : mine.Dominates theirs)
    (hblades : mine.gauge.isSome = theirs.gauge.isSome) : Sharper theirs.gauge mine.gauge := by
  have hgauge := h.gauge
  generalize mine.gauge = g, theirs.gauge = g' at hblades hgauge
  cases g' with
  | none =>
      cases g with
      | none => exact .none
      | some g => cases hblades
  | some g' =>
      cases g with
      | none => cases hblades
      | some g => exact .some hgauge

variable {t : SkillTable} {r : Requirements} {boost : Boost Rat} {weaponClass : WeaponClass}

theorem Dominates.bringsNoMore {mine theirs : WeaponStats} (h : mine.Dominates theirs)
    (hblades : mine.gauge.isSome = theirs.gauge.isSome) {levels levels' : SkillLevels}
    (hlevel : ∀ x, Modifiers.level t r levels x ≤ Modifiers.level t r levels' x)
    (hgain : Modifiers.bludgeonerGain t r theirs levels ≤
      Modifiers.bludgeonerGain t r mine levels') :
    Effective.BringsNoMore t r theirs mine levels levels' where
  raw := h.raw
  affinity := h.affinity
  isRaw := h.isRaw
  level := hlevel
  sharpness :=
    ((h.sharper hblades).gaugeOf h.constantSharpness (hlevel .handicraft)).sharpnessFactor_le
  bludgeoner := hgain

/-- Of two weapons that both have or both lack a blade, one that dominates the other has no less
effective raw attack at any levels, unless bludgeoner adds less to it. -/
theorem raw_le_of_dominates {mine theirs : WeaponStats} (hdominates : mine.dominates theirs = true)
    (hblades : mine.gauge.isSome = theirs.gauge.isSome) {levels : SkillLevels}
    (hgain : Modifiers.bludgeonerGain t r theirs levels ≤ Modifiers.bludgeonerGain t r mine levels)
    {e f : Effective Rat}
    (he : Effective.ofLevels t r boost weaponClass theirs levels = .ok e)
    (hf : Effective.ofLevels t r boost weaponClass mine levels = .ok f) : e.raw ≤ f.raw :=
  ((dominates_iff.1 hdominates).bringsNoMore hblades (fun _ => le_rfl) hgain).raw_le he hf

/-- Yellow at its longest. -/
def yellowGauge : Gauge := ⟨[0, 0, 100, 0, 0, 0, 0], by decide, by decide⟩

/-- Without bludgeoner, the green hammer has the ten raw attack that its sharpness is worth. -/
theorem raw_le_of_dominates_hammer :
    ∃ c q e f, malletDraft.resolve = .ok c ∧ Request.resolve c malletRequest = .ok q ∧
      Effective.ofLevels c.skills q.requirements q.consumables.boost .hammer
        (malletStats yellowGauge) (malletLevels 0 5) = .ok e ∧
      Effective.ofLevels c.skills q.requirements q.consumables.boost .hammer
        (malletStats greenGauge) (malletLevels 0 5) = .ok f ∧
      (e.raw, f.raw) = ((200, 210) : Rat × Rat) ∧ e.raw ≤ f.raw := by
  have hattacks : hammerAttacks (yellowGauge, malletLevels 0 5) (greenGauge, malletLevels 0 5) =
      some (⟨200, 0⟩, ⟨210, 0⟩) := by
    decide +kernel
  obtain ⟨c, q, e, f, hc, hq, -, he, hf, hyellow, hgreen⟩ := exists_hammers hattacks
  obtain ⟨heraw, hegain⟩ := HammerAttack.mk.inj hyellow
  obtain ⟨hfraw, hfgain⟩ := HammerAttack.mk.inj hgreen
  have hdominates : (malletStats greenGauge).dominates (malletStats yellowGauge) = true := by
    decide
  have hgain : Modifiers.bludgeonerGain c.skills q.requirements (malletStats yellowGauge)
        (malletLevels 0 5) ≤
      Modifiers.bludgeonerGain c.skills q.requirements (malletStats greenGauge)
        (malletLevels 0 5) := by
    rw [hegain, hfgain]
  exact ⟨c, q, e, f, hc, hq, he, hf, Prod.ext heraw hfraw,
    raw_le_of_dominates hdominates rfl hgain he hf⟩

/-- With bludgeoner it falls nineteen short: a dominated weapon can have more raw attack. -/
theorem dominated_raw_exceeds :
    ¬ ∀ (d : CatalogueDraft) (c : Catalogue) (draft : RequestDraft) (q : Request),
      d.resolve = .ok c → Request.resolve c draft = .ok q →
      ∀ (weaponClass : WeaponClass) (mine theirs : WeaponStats),
        mine.gauge.isSome = theirs.gauge.isSome → mine.dominates theirs = true →
        ∀ levels : SkillLevels, levels.Capped c.skills.cap →
          ∀ e f : Effective Rat,
            Effective.ofLevels c.skills q.requirements q.consumables.boost weaponClass theirs
              levels = .ok e →
            Effective.ofLevels c.skills q.requirements q.consumables.boost weaponClass mine
              levels = .ok f →
            e.raw ≤ f.raw := by
  intro hall
  have hattacks : hammerAttacks (yellowGauge, malletLevels 1 5) (greenGauge, malletLevels 1 5) =
      some (⟨250, 50⟩, ⟨231, 20⟩) := by
    decide +kernel
  obtain ⟨c, q, e, f, hc, hq, hcapped, he, hf, hyellow, hgreen⟩ := exists_hammers hattacks
  obtain ⟨heraw, -⟩ := HammerAttack.mk.inj hyellow
  obtain ⟨hfraw, -⟩ := HammerAttack.mk.inj hgreen
  have hdominates : (malletStats greenGauge).dominates (malletStats yellowGauge) = true := by
    decide
  have hle := hall malletDraft c malletRequest q hc hq .hammer (malletStats greenGauge)
    (malletStats yellowGauge) rfl hdominates (malletLevels 1 5) hcapped e f he hf
  rw [heraw, hfraw] at hle
  exact absurd hle (by norm_num)

end WeaponStats

end Loadout
