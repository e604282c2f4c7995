import Loadout.Catalogue.Resolve
import Loadout.Damage.Modifiers
import Loadout.Proofs.SuccessfulRun
import Mathlib.Order.MinMax

/-!
# Limits of skills

A loaded catalogue has a normal limit of at least one for every skill and no secret limit below it.
So a skill that is present works at some level, the secret skill only ever adds to that level, and
no level that works exceeds the secret limit.
-/

namespace Loadout

/-- Whether every skill has some normal limit and no lower secret limit. -/
def SkillTable.LimitsInOrder (t : SkillTable) : Prop :=
  ∀ s, 1 ≤ (t.skill s).normalLimit ∧ (t.skill s).normalLimit ≤ (t.skill s).secretLimit

theorem demand_eq_ok_iff {condition : Bool} {entry : Entry} {fault : EntryFault} {u : Unit} :
    demand condition entry fault = .ok u ↔ condition = true := by
  unfold demand
  cases condition <;> simp

theorem SkillsDraft.limits_of_resolveSkill {d : SkillsDraft} {id : String} {s : SkillDraft}
    {skill : Skill} (h : d.resolveSkill id s = .ok skill) :
    1 ≤ skill.normalLimit ∧ skill.normalLimit ≤ skill.secretLimit := by
  obtain ⟨_, hlimits, h⟩ := SuccessfulRun.bind_eq_ok_iff.1 h
  obtain ⟨secretSkill, -, h⟩ := SuccessfulRun.bind_eq_ok_iff.1 h
  cases h
  simpa using demand_eq_ok_iff.1 hlimits

theorem SkillsDraft.id_of_resolveSkill {d : SkillsDraft} {id : String} {s : SkillDraft}
    {skill : Skill} (h : d.resolveSkill id s = .ok skill) : skill.id = id := by
  obtain ⟨_, -, h⟩ := SuccessfulRun.bind_eq_ok_iff.1 h
  obtain ⟨secretSkill, -, h⟩ := SuccessfulRun.bind_eq_ok_iff.1 h
  cases h
  rfl

theorem SkillsDraft.secretLimit_of_resolveSkill {d : SkillsDraft} {id : String} {s : SkillDraft}
    {skill : Skill} (h : d.resolveSkill id s = .ok skill) :
    skill.secretLimit = s.secretLimit.getD s.limit := by
  obtain ⟨_, -, h⟩ := SuccessfulRun.bind_eq_ok_iff.1 h
  obtain ⟨secretSkill, -, h⟩ := SuccessfulRun.bind_eq_ok_iff.1 h
  cases h
  rfl

/-- What holds of all entries of a table, and of the one that stands for a handle without an entry,
holds of whatever a handle denotes. -/
theorem getD_of_forall {α : Type} {p : α → Prop} {entries : Array α} {standIn : α}
    (hstandIn : p standIn) (h : ∀ a ∈ entries.toList, p a) (n : Nat) :
    p (entries.getD n standIn) := by
  rw [Array.getD_eq_getD_getElem?]
  cases hget : entries[n]? with
  | none => exact hstandIn
  | some a => exact h a (Array.mem_toList_iff.2 (Array.mem_of_getElem? hget))

/-- Every skill and every set bonus is resolved by itself, and the skills with known effects are
found by their ids. -/
structure SkillsDraft.Resolves (d : SkillsDraft) (t : SkillTable) : Prop where
  skills : List.Forall₂ (fun e skill => d.resolveSkill e.1 e.2 = .ok skill) d.skills.entries
    t.skills.toList
  bonuses : List.Forall₂ (fun e bonus => d.resolveBonus e.1 e.2 = .ok bonus) d.bonuses.entries
    t.bonuses.toList
  holder : ∀ e, t.holder e = d.find? e.skillId

theorem SkillsDraft.resolves_of_resolve {d : SkillsDraft} {t : SkillTable}
    (h : d.resolve = .ok t) : d.Resolves t := by
  obtain ⟨skills, hskills, h⟩ := SuccessfulRun.bind_eq_ok_iff.1 h
  obtain ⟨bonuses, hbonuses, h⟩ := SuccessfulRun.bind_eq_ok_iff.1 h
  cases h
  exact ⟨SuccessfulRun.mapM_eq_ok_iff.1 hskills, SuccessfulRun.mapM_eq_ok_iff.1 hbonuses,
    PerEffect.ofFunction_get _⟩

theorem SkillsDraft.limitsInOrder_of_resolve {d : SkillsDraft} {t : SkillTable}
    (h : d.resolve = .ok t) : t.LimitsInOrder := by
  have hlimits : ∀ skill ∈ t.skills.toList,
      1 ≤ skill.normalLimit ∧ skill.normalLimit ≤ skill.secretLimit := by
    intro skill hskill
    obtain ⟨e, -, hresolve⟩ := SuccessfulRun.exists_item (resolves_of_resolve h).skills hskill
    exact limits_of_resolveSkill hresolve
  exact fun s => getD_of_forall (by decide) hlimits s.index.toNat

/-- Every entry of a table is resolved by itself, with the handles of the skill table, and no table
repeats an id. -/
structure CatalogueDraft.Resolves (d : CatalogueDraft) (c : Catalogue) : Prop where
  skills : d.skills.resolve = .ok c.skills
  decorations : d.decorations.mapM (DecorationDraft.resolve c.skills) = .ok c.decorations.toList
  weapons : d.weapons.mapM (WeaponDraft.resolve c.skills) = .ok c.weapons.toList
  uniqueDecorations : demandUnique .decoration (c.decorations.toList.map (·.id)) = .ok ()
  uniqueCharms : demandUnique .charm (c.charms.toList.map (·.id)) = .ok ()
  uniqueWeapons : demandUnique .weapon (c.weapons.toList.map (·.id)) = .ok ()
  uniqueBuffs : demandUnique .buff (c.buffs.toList.map (·.id)) = .ok ()

theorem CatalogueDraft.resolves_of_resolve {d : CatalogueDraft} {c : Catalogue}
    (h : d.resolve = .ok c) : d.Resolves c := by
  obtain ⟨skills, hskills, h⟩ := SuccessfulRun.bind_eq_ok_iff.1 h
  obtain ⟨decorations, hdecorations, h⟩ := SuccessfulRun.bind_eq_ok_iff.1 h
  obtain ⟨pieces, -, h⟩ := SuccessfulRun.bind_eq_ok_iff.1 h
  obtain ⟨charms, -, h⟩ := SuccessfulRun.bind_eq_ok_iff.1 h
  obtain ⟨weapons, hweapons, h⟩ := SuccessfulRun.bind_eq_ok_iff.1 h
  obtain ⟨_, hdecorationIds, h⟩ := SuccessfulRun.bind_eq_ok_iff.1 h
  obtain ⟨_, hcharmIds, h⟩ := SuccessfulRun.bind_eq_ok_iff.1 h
  obtain ⟨_, hweaponIds, h⟩ := SuccessfulRun.bind_eq_ok_iff.1 h
  obtain ⟨_, hbuffIds, h⟩ := SuccessfulRun.bind_eq_ok_iff.1 h
  obtain ⟨_, -, h⟩ := SuccessfulRun.bind_eq_ok_iff.1 h
  cases h
  exact ⟨hskills, hdecorations, hweapons, hdecorationIds, hcharmIds, hweaponIds, hbuffIds⟩

theorem CatalogueDraft.limitsInOrder_of_resolve {d : CatalogueDraft} {c : Catalogue}
    (h : d.resolve = .ok c) : c.skills.LimitsInOrder :=
  SkillsDraft.limitsInOrder_of_resolve (resolves_of_resolve h).skills

namespace Tally

variable {κ : Type} [Ord κ] [Std.TransOrd κ] [Std.LawfulEqOrd κ] [DecidableEq κ]

theorem count_ofList_map (f : κ → Nat) (keys : List κ) (k : κ) :
    (Tally.ofList (keys.map fun k => (k, f k))).count k = if k ∈ keys then f k else 0 := by
  have hfold : ∀ t : Tally κ, t.count k = 0 ∨ t.count k = f k →
      ((keys.map fun k => (k, f k)).foldl
        (fun t e => if e.2 = 0 then t else t.set e.1 e.2) t).count k =
      if k ∈ keys then f k else t.count k := by
    induction keys with
    | nil => simp
    | cons j rest ih =>
        intro t ht
        have hstep : (if f j = 0 then t else t.set j (f j)).count k =
            if k = j ∧ f j ≠ 0 then f j else t.count k := by
          by_cases hj : f j = 0
          · simp [hj]
          · simp [hj, count_set]
        rw [List.map_cons, List.foldl_cons, ih, hstep]
        · simp only [List.mem_cons]
          by_cases hkj : k = j
          · subst hkj
            by_cases hzero : f k = 0
            · simp only [hzero, or_self] at ht
              simp [hzero, ht]
            · simp [hzero]
          · simp [hkj]
        · rw [hstep]
          split
          next hkj => exact .inr (congrArg f hkj.1.symm)
          next => exact ht
  exact hfold empty (.inl rfl)

end Tally

namespace Requirements

theorem relevant_iff {r : Requirements} {s : SkillId} : r.relevant s = true ↔ s ∈ r.skills := by
  unfold relevant OrderedMap.contains skills OrderedMap.keys
  rw [Option.isSome_iff_exists, List.mem_map]
  constructor
  · rintro ⟨n, hn⟩
    exact ⟨(s, n), OrderedMap.get?_eq_some_iff.1 hn, rfl⟩
  · rintro ⟨⟨s, n⟩, hmem, rfl⟩
    exact ⟨n, OrderedMap.get?_eq_some_iff.2 hmem⟩

theorem count_restrictLevels (r : Requirements) (levels : SkillLevels) (s : SkillId) :
    (r.restrictLevels levels).count s = if r.relevant s then levels.count s else 0 :=
  Tally.count_keep levels r.relevant s

/-- A minimum only speaks of relevant skills. -/
theorem metBy_restrictLevels (r : Requirements) (levels : SkillLevels) :
    r.metBy (r.restrictLevels levels) = r.metBy levels := by
  have hcount : ∀ e ∈ r.minimum.entries, (r.restrictLevels levels).count e.1 = levels.count e.1 :=
    fun e he => by
      rw [count_restrictLevels, relevant_iff.2 (List.mem_map_of_mem he), if_pos rfl]
  rw [Bool.eq_iff_iff, metBy, metBy, List.all_eq_true, List.all_eq_true]
  exact forall₂_congr fun e he => by rw [hcount e he]

theorem count_maximumLevels (r : Requirements) (t : SkillTable) (s : SkillId) :
    (r.maximumLevels t).count s = if r.relevant s && !r.removes s then t.cap s else 0 := by
  have hmem : s ∈ r.skills.filter (fun s => !r.removes s) ↔
      (r.relevant s && !r.removes s) = true := by
    rw [List.mem_filter, ← relevant_iff, Bool.and_eq_true]
  rw [maximumLevels, Tally.count_ofList_map]
  simp only [hmem]

end Requirements

namespace Modifiers

variable {t : SkillTable} {r : Requirements}

theorem present_iff {levels : SkillLevels} {s : SkillId} :
    present r levels s = true ↔ r.removes s = false ∧ 0 < levels.count s := by
  simp [present, Tally.has]

theorem one_le_usableLimit (ht : t.LimitsInOrder) (levels : SkillLevels) (s : SkillId) :
    1 ≤ usableLimit t r levels s := by
  obtain ⟨hone, hle⟩ := ht s
  unfold usableLimit
  split
  · split
    · exact hone.trans hle
    · exact hone
  · exact hone

theorem usableLimit_le_cap (ht : t.LimitsInOrder) (levels : SkillLevels) (s : SkillId) :
    usableLimit t r levels s ≤ t.cap s := by
  obtain ⟨-, hle⟩ := ht s
  unfold usableLimit
  split
  · split
    · exact le_rfl
    · exact hle
  · exact hle

/-- Where every skill stays present, no limit falls. -/
theorem usableLimit_mono (ht : t.LimitsInOrder) {low high : SkillLevels}
    (h : ∀ s, present r low s = true → present r high s = true) (s : SkillId) :
    usableLimit t r low s ≤ usableLimit t r high s := by
  obtain ⟨-, hle⟩ := ht s
  unfold usableLimit
  cases (t.skill s).secretSkill with
  | none => exact le_rfl
  | some secret =>
      by_cases hlow : present r low secret = true
      · simp only [hlow, h secret hlow, if_true, le_refl]
      · simp only [Bool.not_eq_true] at hlow
        simp only [hlow, Bool.false_eq_true, if_false]
        split
        · exact hle
        · exact le_rfl

theorem level_eq_zero {levels : SkillLevels} {e : Effect}
    (h : ∀ s, t.holder e = some s → present r levels s = false) : level t r levels e = 0 := by
  unfold level
  cases hholder : t.holder e with
  | none => rfl
  | some s => simp only [h s hholder, Bool.false_and, Bool.false_eq_true, if_false]

theorem level_of_holder {levels : SkillLevels} {e : Effect} {s : SkillId}
    (h : t.holder e = some s) :
    level t r levels e = if present r levels s && r.stateOf t s != 0 then
      min (levels.count s) (usableLimit t r levels s) else 0 := by
  rw [level, h]

/-- Where every skill stays present and has at least the level that works, no level falls. -/
theorem level_mono (ht : t.LimitsInOrder) {low high : SkillLevels}
    (hpresent : ∀ s, present r low s = true → present r high s = true)
    (hcount : ∀ s, present r low s = true →
      min (low.count s) (usableLimit t r low s) ≤ high.count s) (e : Effect) :
    level t r low e ≤ level t r high e := by
  unfold level
  cases t.holder e with
  | none => exact le_rfl
  | some s =>
      simp only [Bool.and_eq_true]
      split
      next hlow =>
        rw [if_pos ⟨hpresent s hlow.1, hlow.2⟩]
        exact le_min (hcount s hlow.1)
          ((min_le_right _ _).trans (usableLimit_mono ht hpresent s))
      next => exact Nat.zero_le _

end Modifiers

end Loadout
