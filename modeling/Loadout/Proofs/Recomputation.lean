import Loadout.Proofs.BuildAccounts
import Loadout.Proofs.FittingDecorations

/-!
# Working a reported build out again

The numbers of a reported build were worked out from relevant levels and from stats without an
irrelevant skill or set bonus.  If every skill with a known effect is asked for or removed, nothing
else acts on damage: a removed skill is never present, and a skill that is asked for is relevant
together with its secret skill.  So working the build out from all that its gear grants gives the
same numbers.
-/

namespace Loadout

/-- Whether levels are the same on all relevant skills. -/
def Requirements.SameLevels (r : Requirements) (a b : SkillLevels) : Prop :=
  ∀ s, r.relevant s = true → a.count s = b.count s

theorem Requirements.sameLevels_restrictLevels (r : Requirements) (levels : SkillLevels) :
    r.SameLevels (r.restrictLevels levels) levels := by
  intro s hs
  rw [count_restrictLevels, hs, if_pos rfl]

/-- Whether the effect of a skill only depends on relevant levels: the skill is removed, or it is
relevant and so is its secret skill, unless that one is removed. -/
def Requirements.Settles (t : SkillTable) (r : Requirements) (s : SkillId) : Prop :=
  r.removes s = true ∨ r.relevant s = true ∧ ∀ secret, (t.skill s).secretSkill = some secret →
    r.removes secret = true ∨ r.relevant secret = true

namespace Modifiers

variable {t : SkillTable} {r : Requirements} {a b : SkillLevels} {s : SkillId}

theorem present_congr (hab : r.SameLevels a b) (hs : r.removes s = true ∨ r.relevant s = true) :
    present r a s = present r b s := by
  unfold present Tally.has
  rcases hs with hremoved | hrelevant
  · simp [hremoved]
  · rw [hab s hrelevant]

theorem usableLimit_congr (hab : r.SameLevels a b) (hs : r.Settles t s)
    (hkept : r.removes s = false) : usableLimit t r a s = usableLimit t r b s := by
  rcases hs with hremoved | ⟨-, hsecret⟩
  · rw [hremoved] at hkept
    cases hkept
  · unfold usableLimit
    cases h : (t.skill s).secretSkill with
    | none => rfl
    | some secret =>
        have hpresent := present_congr hab (hsecret secret h)
        simp only [hpresent]

theorem level_congr (hab : r.SameLevels a b) {e : Effect}
    (he : ∀ s, t.holder e = some s → r.Settles t s) : level t r a e = level t r b e := by
  cases hholder : t.holder e with
  | none => simp only [level, hholder]
  | some s =>
      have hs := he s hholder
      rw [level_of_holder hholder, level_of_holder hholder]
      -- a removed skill is off on both sides, so its levels need not agree
      by_cases hremoved : r.removes s = true
      · simp [present, hremoved]
      · obtain ⟨hrelevant, -⟩ := hs.resolve_left hremoved
        have hpresent := present_congr hab (.inr hrelevant)
        have hlimit := usableLimit_congr hab hs (Bool.eq_false_iff.2 hremoved)
        rw [hpresent, hlimit, hab s hrelevant]

end Modifiers

theorem Effective.ofLevels_congr {R : Type} [Reckoning R] {t : SkillTable} {r : Requirements}
    {boost : Boost R} {weaponClass : WeaponClass} {stats : WeaponStats} {a b : SkillLevels}
    (h : ∀ e, Modifiers.level t r a e = Modifiers.level t r b e) :
    ofLevels t r boost weaponClass stats a = ofLevels t r boost weaponClass stats b := by
  have hlevels : Modifiers.level t r a = Modifiers.level t r b := funext h
  unfold ofLevels Modifiers.resolve
  rw [hlevels]

theorem findIdx?_eq_of_forall₂ {α β : Type} {p : α → Bool} {q : β → Bool} {as : List α}
    {bs : List β} (h : List.Forall₂ (fun a b => p a = q b) as bs) :
    as.findIdx? p = bs.findIdx? q := by
  induction h with
  | nil => rfl
  | cons hab _ ih => simp only [List.findIdx?_cons, hab, ih]

/-- A loaded table finds the skills that its draft finds. -/
theorem SkillsDraft.findSkill?_of_resolve {d : SkillsDraft} {t : SkillTable}
    (h : d.resolve = .ok t) (id : String) : t.findSkill? id = d.find? id := by
  have hids : List.Forall₂ (fun entry skill => skill.id = entry.1) d.skills.entries
      t.skills.toList := by
    apply (resolves_of_resolve h).skills.imp
    intro entry skill hskill
    exact id_of_resolveSkill hskill
  have hposition : d.skills.entries.findIdx? (fun entry => decide (entry.1 = id)) =
      t.skills.toList.findIdx? fun skill => decide (skill.id = id) := by
    apply findIdx?_eq_of_forall₂
    apply hids.imp
    intro entry skill hid
    rw [hid]
  have hfound : t.findSkill? id =
      (t.skills.toList.findIdx? fun skill => decide (skill.id = id)).map SkillId.ofIndex := by
    rw [← List.findIdx?_toArray]
    rfl
  rw [hfound, ← hposition, find?, OrderedMap.keys, List.findIdx?_map]
  rfl

/-- In a loaded table the holder of an effect is the skill that is found by its id. -/
theorem SkillsDraft.holder_of_resolve {d : SkillsDraft} {t : SkillTable} (h : d.resolve = .ok t)
    (e : Effect) : t.holder e = t.findSkill? e.skillId := by
  rw [findSkill?_of_resolve h, (resolves_of_resolve h).holder]

namespace Request

variable {c : Catalogue} {rd : RequestDraft} {q : Request}

theorem settles_of_resolve (hq : resolve c rd = .ok q) {id : String} {s : SkillId}
    (hid : id ∈ rd.requirements.selected.keys ∨ id ∈ rd.requirements.removed)
    (hs : c.skills.findSkill? id = some s) : q.requirements.Settles c.skills s := by
  rcases hid with hselected | hremoved
  · exact .inr (relevant_of_resolve hq hselected hs)
  · exact .inl (removes_of_resolve hq hremoved hs)

variable {R : Type} [Reckoning R] {d : CatalogueDraft} {o : SearchOptions} {f : Find R}

/-- If every skill with a known effect is selected or removed, effects only see relevant levels. -/
theorem level_eq_of_sameLevels (hd : d.resolve = .ok c) (hq : resolve c rd = .ok q)
    (heffects : ∀ e s, c.skills.holder e = some s →
      e.skillId ∈ rd.requirements.selected.keys ∨ e.skillId ∈ rd.requirements.removed)
    {a b : SkillLevels} (hsame : q.requirements.SameLevels a b) (e : Effect) :
    Modifiers.level c.skills q.requirements a e = Modifiers.level c.skills q.requirements b e := by
  apply Modifiers.level_congr hsame
  intro s hs
  have hfound := SkillsDraft.holder_of_resolve (CatalogueDraft.resolves_of_resolve hd).skills e
  exact settles_of_resolve hq (heffects e s hs) (hfound ▸ hs)

theorem ofLevels_eq_of_sameLevels (hd : d.resolve = .ok c) (hq : resolve c rd = .ok q)
    (heffects : ∀ e s, c.skills.holder e = some s →
      e.skillId ∈ rd.requirements.selected.keys ∨ e.skillId ∈ rd.requirements.removed)
    {boost : Boost R} {weaponClass : WeaponClass} {stats : WeaponStats} {a b : SkillLevels}
    (hsame : q.requirements.SameLevels a b) :
    Effective.ofLevels c.skills q.requirements boost weaponClass stats a =
      Effective.ofLevels c.skills q.requirements boost weaponClass stats b :=
  Effective.ofLevels_congr (level_eq_of_sameLevels hd hq heffects hsame)

/-- If every skill with a known effect is selected or removed, working a reported build out from its
gear does not stop at the check of its decorations and gives the numbers of the report. -/
theorem reported_recomputes (hd : d.resolve = .ok c) (hc : c.FitsHandles)
    (hq : resolve c rd = .ok q)
    (heffects : ∀ e s, c.skills.holder e = some s →
      e.skillId ∈ rd.requirements.selected.keys ∨ e.skillId ∈ rd.requirements.removed)
    (h : q.Reports c o f) :
    ∃ stats, f.weapon.stats = .ok stats ∧ c.decorationsFit f.outfit stats f.decorations = true ∧
      c.gearEffective q.requirements q.consumables.boost f.weapon f.outfit f.decorations =
        .ok f.effective := by
  have hr := coherent_of_resolve hq
  obtain ⟨useful, x, w, stats, p, chosen, hbuild⟩ := exists_buildOf_of_reports hr h
  have hsame : q.requirements.SameLevels f.levels
      (c.gearLevels stats f.outfit f.decorations) := by
    rw [hbuild.levels_eq hc hr]
    exact q.requirements.sameLevels_restrictLevels _
  have heffective := hbuild.found.effective
  rw [hbuild.candidate.counted] at heffective
  rw [ofLevels_eq_of_sameLevels hd hq heffects hsame] at heffective
  have hgear : c.gearEffective q.requirements q.consumables.boost f.weapon f.outfit f.decorations =
      .ok f.effective := SuccessfulRun.bind_eq_ok_iff.2 ⟨stats, hbuild.own, heffective⟩
  exact ⟨stats, hbuild.own, hbuild.decorationsFit hc, hgear⟩

theorem reported_recomputes_archer : ∃ c q stats, ∃ f : Find Rat, archerDraft.resolve = .ok c ∧
    c.FitsHandles ∧ resolve c archerRequest = .ok q ∧ q.Reports c {} f ∧
      f.weapon.stats = .ok stats ∧ c.decorationsFit f.outfit stats f.decorations = true ∧
      c.gearEffective q.requirements q.consumables.boost f.weapon f.outfit f.decorations =
        .ok f.effective := by
  obtain ⟨c, q, f, hd, hc, hq, hf⟩ := exists_archer_report
  have hselected : ∀ e s, c.skills.holder e = some s →
      e.skillId ∈ archerRequest.requirements.selected.keys ∨
        e.skillId ∈ archerRequest.requirements.removed := by
    have hall : archerDraft.resolve.toOption.all (fun c => Effect.all.all fun e =>
        (c.skills.holder e).all fun _ =>
          e.skillId ∈ archerRequest.requirements.selected.keys) = true := by
      decide +kernel
    rw [SuccessfulRun.toOption_eq_some_iff.2 hd, Option.all_some] at hall
    intro e s hs
    have he := List.all_eq_true.1 hall e (Effect.mem_all e)
    rw [hs, Option.all_some] at he
    exact .inl (of_decide_eq_true he)
  obtain ⟨stats, hrecomputes⟩ := reported_recomputes hd hc hq hselected hf
  exact ⟨c, q, stats, f, hd, hc, hq, hf, hrecomputes⟩

end Request

end Loadout
