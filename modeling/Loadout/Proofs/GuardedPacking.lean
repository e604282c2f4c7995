import Loadout.Proofs.GuardedPreparation

/-!
# Guarded packing

Useful decorations are packed once more, all packings at once, with a guard before everything that
can break: a step of no size, a skill without an entry, a slot behind the last one.  The first open
slot stays within the slots and every skill of a loaded decoration has its entry, but a loaded
decoration can give an empty level, and if such a decoration is useful, every packing breaks at it.
-/

namespace Loadout

def SkillTable.guardedSkill (t : SkillTable) (s : SkillId) : Except Breach Skill :=
  match t.skills[s.index.toNat]? with
  | some skill => .ok skill
  | none => .error .outOfRange

theorem SkillTable.guardedSkill_eq_ok {t : SkillTable} {s : SkillId} (h : t.Lists s) :
    t.guardedSkill s = .ok (t.skill s) := by
  unfold Lists at h
  simp [guardedSkill, skill, Array.getD, h]

namespace UsefulDecoration

/-- The copies after which none of the skills takes another level. -/
def guardedCopies (t : SkillTable) (levels : SkillLevels) (u : UsefulDecoration) :
    Except Breach Nat :=
  u.levels.foldlM
    (fun most l => do
      let skill ← t.guardedSkill l.1
      if l.2 = 0 then .error .emptyStep
      else .ok (max most ((skill.secretLimit - levels.count l.1 + l.2 - 1) / l.2)))
    0

def guardedGain (t : SkillTable) (u : UsefulDecoration) (levels : SkillLevels) :
    Except Breach SkillLevels :=
  u.levels.foldlM
    (fun levels l =>
      if l.2 = 0 then .ok levels
      else do
        let skill ← t.guardedSkill l.1
        return levels.raise skill.secretLimit l.1 l.2)
    levels

end UsefulDecoration

namespace Packing

/-- A packing on the way: the first open slot, and the decorations in the slots before it. -/
structure Partial where
  next : Nat
  decorations : List DecorationId
  levels : SkillLevels

namespace Partial

/-- No copy, one copy and so on up to a number of copies, each behind the one before. -/
def guardedFill (t : SkillTable) (u : UsefulDecoration) :
    Nat → Partial → Except Breach (List Partial)
  | 0, p => .ok [p]
  | n + 1, p => do
      let levels ← u.guardedGain t p.levels
      let more ← guardedFill t u n ⟨p.next + 1, p.decorations ++ [u.id], levels⟩
      return p :: more

def guardedExtend (t : SkillTable) (slots : List Nat) (u : UsefulDecoration) (p : Partial) :
    Except Breach (List Partial) :=
  if slots.length < p.next then .error .outOfRange
  else do
    let fitting := ((slots.drop p.next).takeWhile (u.size ≤ ·)).length
    let most ← u.guardedCopies t p.levels
    p.guardedFill t u (min most fitting)

end Partial

def guardedExtendAll (t : SkillTable) (slots : List Nat) (u : UsefulDecoration)
    (partials : List Partial) : Except Breach (List Partial) := do
  return (← partials.mapM (Partial.guardedExtend t slots u)).flatten

/-- Packs one useful decoration after the other, all packings at once. -/
def guardedPack (t : SkillTable) (useful : List UsefulDecoration) (slots : List Nat)
    (levels : SkillLevels) : Except Breach (List Packing) := do
  let partials ← useful.foldlM (fun partials u => guardedExtendAll t slots u partials)
    [⟨0, [], levels⟩]
  return (partials.filter (·.next == slots.length)).map fun p => ⟨p.decorations, p.levels⟩

end Packing

section Copying

variable {t : SkillTable} {levels : SkillLevels} {u : UsefulDecoration}

namespace UsefulDecoration

instance (u : UsefulDecoration) : Decidable u.GivesLevels :=
  inferInstanceAs (Decidable (∀ l ∈ u.levels, l.2 ≠ 0))

/-- Copies are counted unless a level is empty. -/
theorem guardedCopies_eq (h : ∀ l ∈ u.levels, t.Lists l.1) :
    u.guardedCopies t levels =
      if u.GivesLevels then .ok (u.mostCopies t levels) else .error .emptyStep := by
  have hfold : ∀ (grants : List (SkillId × Nat)) (most : Nat), (∀ l ∈ grants, t.Lists l.1) →
      grants.foldlM (fun most l => do
        let skill ← t.guardedSkill l.1
        if l.2 = 0 then .error .emptyStep
        else .ok (max most ((skill.secretLimit - levels.count l.1 + l.2 - 1) / l.2))) most =
        (if ∀ l ∈ grants, l.2 ≠ 0 then
          .ok (grants.foldl (fun most l => max most (copiesOf t levels l)) most)
        else .error .emptyStep : Except Breach Nat) := by
    intro grants
    induction grants with
    | nil => simp [pure, Except.pure]
    | cons l rest ih =>
        intro most hlists
        obtain ⟨hl, hrest⟩ := List.forall_mem_cons.1 hlists
        rw [List.foldlM_cons, SkillTable.guardedSkill_eq_ok hl]
        by_cases hempty : l.2 = 0
        · simp [bind, Except.bind, hempty]
        · have hnext := ih (max most (copiesOf t levels l)) hrest
          simp only [List.forall_mem_cons, hempty, ne_eq, not_false_eq_true, true_and, if_false,
            List.foldl_cons]
          exact hnext
  exact hfold u.levels 0 h

theorem usefulCopies_eq_error (h : ¬ u.GivesLevels) :
    u.usefulCopies t levels = .error .emptyStep := by
  have hfold : ∀ (grants : List (SkillId × Nat)) (most : Nat), (¬ ∀ l ∈ grants, l.2 ≠ 0) →
      grants.foldlM (fun most l => do
        return max most (← Fault.stepsOver (t.cap l.1 - levels.count l.1) l.2)) most =
          .error Fault.emptyStep := by
    intro grants
    induction grants with
    | nil => simp
    | cons l rest ih =>
        intro most hempty
        rw [List.foldlM_cons]
        by_cases hl : l.2 = 0
        · rw [Fault.stepsOver, if_pos hl]
          rfl
        · rw [Fault.stepsOver, if_neg hl]
          exact ih _ fun hrest => hempty (List.forall_mem_cons.2 ⟨hl, hrest⟩)
  exact hfold u.levels 0 h

theorem guardedGain_eq_ok (h : ∀ l ∈ u.levels, t.Lists l.1) :
    u.guardedGain t levels = .ok (levels.gainAll t u.levels) := by
  refine SuccessfulRun.foldlM_eq_ok_of_forall (fun l hl levels => ?_) levels
  by_cases hempty : l.2 = 0
  · have hsame : levels.gain t l.1 l.2 = levels := if_pos hempty
    rw [if_pos hempty, hsame]
  · rw [if_neg hempty, SkillTable.guardedSkill_eq_ok (h l hl)]
    rfl

end UsefulDecoration

end Copying

namespace Packing

namespace Partial

variable {t : SkillTable} {slots : List Nat} {u : UsefulDecoration} {rest : List UsefulDecoration}
variable {p q : Partial}

/-- The packing on the way with copies of a decoration in its first open slots. -/
def withCopies (t : SkillTable) (u : UsefulDecoration) (p : Partial) (n : Nat) : Partial :=
  ⟨p.next + n, p.decorations ++ List.replicate n u.id, u.gainCopies t n p.levels⟩

theorem guardedFill_eq_ok (h : ∀ l ∈ u.levels, t.Lists l.1) (n : Nat) (p : Partial) :
    p.guardedFill t u n = .ok ((List.range (n + 1)).map (p.withCopies t u)) := by
  induction n generalizing p with
  | zero => simp [guardedFill, withCopies, UsefulDecoration.gainCopies]
  | succ n ih =>
      have hmore := ih ⟨p.next + 1, p.decorations ++ [u.id], p.levels.gainAll t u.levels⟩
      have hcopies : ∀ k, withCopies t u
          ⟨p.next + 1, p.decorations ++ [u.id], p.levels.gainAll t u.levels⟩ k =
            p.withCopies t u (k + 1) := by
        intro k
        simp [withCopies, UsefulDecoration.gainCopies, List.replicate_succ, Nat.add_right_comm,
          Nat.add_assoc]
      have hnone : p.withCopies t u 0 = p := by
        simp [withCopies, UsefulDecoration.gainCopies]
      simp only [funext hcopies] at hmore
      rw [List.range_succ_eq_map, List.map_cons, hnone, List.map_map]
      refine SuccessfulRun.bind_eq_ok_iff.2 ⟨_, UsefulDecoration.guardedGain_eq_ok h, ?_⟩
      exact SuccessfulRun.bind_eq_ok_iff.2 ⟨_, hmore, rfl⟩

/-- The packings on the way that one more decoration leads to. -/
def extensions (t : SkillTable) (slots : List Nat) (u : UsefulDecoration) (p : Partial) :
    List Partial :=
  (List.range (min (u.mostCopies t p.levels)
    ((slots.drop p.next).takeWhile (u.size ≤ ·)).length + 1)).map (p.withCopies t u)

theorem guardedExtend_eq (h : ∀ l ∈ u.levels, t.Lists l.1) (hnext : p.next ≤ slots.length) :
    p.guardedExtend t slots u =
      if u.GivesLevels then .ok (p.extensions t slots u) else .error .emptyStep := by
  unfold guardedExtend extensions
  rw [if_neg (Nat.not_lt.2 hnext), UsefulDecoration.guardedCopies_eq h]
  split
  next => exact guardedFill_eq_ok h _ p
  next => rfl

theorem next_le_of_mem_extensions (hnext : p.next ≤ slots.length)
    (hq : q ∈ p.extensions t slots u) : q.next ≤ slots.length := by
  obtain ⟨n, hn, rfl⟩ := List.mem_map.1 hq
  have hfitting := (List.takeWhile_sublist (l := slots.drop p.next) (u.size ≤ ·)).length_le
  rw [List.length_drop] at hfitting
  rw [List.mem_range] at hn
  dsimp only [withCopies]
  omega

/-- The packings that a packing on the way ends in. -/
def completions (t : SkillTable) (slots : List Nat) (useful : List UsefulDecoration)
    (p : Partial) : List Packing :=
  (choices t useful (slots.drop p.next) p.levels).map fun chosen =>
    ⟨p.decorations ++ chosen.map (·.id), p.levels.gainAll t (chosen.flatMap (·.levels))⟩

theorem completions_nil (hnext : p.next ≤ slots.length) :
    p.completions t slots [] =
      if p.next = slots.length then [⟨p.decorations, p.levels⟩] else [] := by
  have hopen : (slots.drop p.next).isEmpty = true ↔ p.next = slots.length := by
    rw [List.isEmpty_iff, List.drop_eq_nil_iff]
    omega
  rw [completions, choices]
  simp only [hopen]
  split
  next => simp [SkillLevels.gainAll]
  next => rfl

theorem completions_withCopies (n : Nat) :
    (p.withCopies t u n).completions t slots rest =
      (choices t rest ((slots.drop p.next).drop n) (u.gainCopies t n p.levels)).map fun chosen =>
        ⟨p.decorations ++ (List.replicate n u ++ chosen).map (·.id),
          p.levels.gainAll t ((List.replicate n u ++ chosen).flatMap (·.levels))⟩ := by
  simp [completions, withCopies, List.drop_drop, UsefulDecoration.gainCopies_eq,
    SkillLevels.gainAll_eq_raiseAll, Tally.raiseAll_append]

theorem completions_cons :
    p.completions t slots (u :: rest) =
      (p.extensions t slots u).flatMap (completions t slots rest) := by
  rw [extensions, List.flatMap_map, completions, choices, List.map_flatMap]
  simp only [completions_withCopies, List.map_map]
  rfl

end Partial

variable {t : SkillTable} {slots : List Nat} {levels : SkillLevels} {u : UsefulDecoration}
variable {useful : List UsefulDecoration} {partials : List Partial}

theorem guardedExtendAll_eq_ok (h : ∀ l ∈ u.levels, t.Lists l.1) (hgives : u.GivesLevels)
    (hnext : ∀ p ∈ partials, p.next ≤ slots.length) :
    guardedExtendAll t slots u partials =
      .ok (partials.flatMap (Partial.extensions t slots u)) := by
  have hall : partials.mapM (Partial.guardedExtend t slots u) =
      .ok (partials.map (Partial.extensions t slots u)) := by
    rw [SuccessfulRun.mapM_eq_ok_iff, List.forall₂_map_right_iff, List.forall₂_same]
    intro p hp
    rw [Partial.guardedExtend_eq h (hnext p hp), if_pos hgives]
  exact SuccessfulRun.bind_eq_ok_iff.2 ⟨_, hall, rfl⟩

/-- Some packing is always on the way, so an empty level is met wherever it is. -/
theorem guardedExtendAll_eq_error (h : ∀ l ∈ u.levels, t.Lists l.1) (hgives : ¬ u.GivesLevels)
    (hnext : ∀ p ∈ partials, p.next ≤ slots.length) (hsome : partials ≠ []) :
    guardedExtendAll t slots u partials = .error .emptyStep := by
  cases partials with
  | nil => exact absurd rfl hsome
  | cons p rest =>
      have hfirst := Partial.guardedExtend_eq h (hnext p List.mem_cons_self)
      rw [if_neg hgives] at hfirst
      rw [guardedExtendAll, List.mapM_cons, hfirst]
      rfl

theorem next_le_of_mem_flatMap (hnext : ∀ p ∈ partials, p.next ≤ slots.length) :
    ∀ q ∈ partials.flatMap (Partial.extensions t slots u), q.next ≤ slots.length := by
  intro q hq
  obtain ⟨p, hp, hq⟩ := List.mem_flatMap.1 hq
  exact Partial.next_le_of_mem_extensions (hnext p hp) hq

theorem flatMap_extensions_ne_nil (hsome : partials ≠ []) :
    partials.flatMap (Partial.extensions t slots u) ≠ [] := by
  obtain ⟨p, hp⟩ := List.exists_mem_of_ne_nil partials hsome
  refine List.ne_nil_of_mem (List.mem_flatMap.2 ⟨p, hp, List.mem_map.2 ⟨0, ?_, rfl⟩⟩)
  exact List.mem_range.2 (Nat.succ_pos _)

/-- Whatever is packed on the way ends in its completions. -/
theorem exists_foldlM_guardedExtendAll (h : ∀ u ∈ useful, ∀ l ∈ u.levels, t.Lists l.1)
    (hgives : ∀ u ∈ useful, u.GivesLevels) (hnext : ∀ p ∈ partials, p.next ≤ slots.length) :
    ∃ ends, useful.foldlM (fun partials u => guardedExtendAll t slots u partials) partials =
        .ok ends ∧
      ((ends.filter (·.next == slots.length)).map fun p => (⟨p.decorations, p.levels⟩ : Packing)) =
        partials.flatMap (Partial.completions t slots useful) := by
  induction useful generalizing partials with
  | nil =>
      refine ⟨partials, rfl, ?_⟩
      induction partials with
      | nil => rfl
      | cons p rest ih =>
          obtain ⟨hp, hrest⟩ := List.forall_mem_cons.1 hnext
          rw [List.flatMap_cons, ← ih hrest, Partial.completions_nil hp, List.filter_cons]
          simp only [beq_iff_eq]
          split <;> rfl
  | cons u rest ih =>
      obtain ⟨hu, hrest⟩ := List.forall_mem_cons.1 h
      obtain ⟨hgivesU, hgivesRest⟩ := List.forall_mem_cons.1 hgives
      obtain ⟨ends, hrun, hends⟩ := ih hrest hgivesRest (next_le_of_mem_flatMap (u := u) hnext)
      refine ⟨ends, ?_, ?_⟩
      · rw [List.foldlM_cons, guardedExtendAll_eq_ok hu hgivesU hnext]
        exact hrun
      · rw [hends, List.flatMap_assoc]
        exact congrArg (List.flatMap · partials) (funext fun p => Partial.completions_cons.symm)

theorem foldlM_guardedExtendAll_eq_error (h : ∀ u ∈ useful, ∀ l ∈ u.levels, t.Lists l.1)
    (hgives : ¬ ∀ u ∈ useful, u.GivesLevels) (hnext : ∀ p ∈ partials, p.next ≤ slots.length)
    (hsome : partials ≠ []) :
    useful.foldlM (fun partials u => guardedExtendAll t slots u partials) partials =
      .error .emptyStep := by
  induction useful generalizing partials with
  | nil => simp at hgives
  | cons u rest ih =>
      obtain ⟨hu, hrest⟩ := List.forall_mem_cons.1 h
      rw [List.foldlM_cons]
      by_cases hgivesU : u.GivesLevels
      · rw [guardedExtendAll_eq_ok hu hgivesU hnext]
        refine ih hrest ?_ (next_le_of_mem_flatMap hnext) (flatMap_extensions_ne_nil hsome)
        exact fun hall => hgives (List.forall_mem_cons.2 ⟨hgivesU, hall⟩)
      · rw [guardedExtendAll_eq_error hu hgivesU hnext hsome]
        rfl

theorem all_eq_error (hgives : ¬ ∀ u ∈ useful, u.GivesLevels) :
    all t useful slots levels = .error .emptyStep := by
  induction useful generalizing slots levels with
  | nil => simp at hgives
  | cons u rest ih =>
      rw [all]
      by_cases hgivesU : u.GivesLevels
      · have hrest : ¬ ∀ u ∈ rest, u.GivesLevels :=
          fun hall => hgives (List.forall_mem_cons.2 ⟨hgivesU, hall⟩)
        rw [UsefulDecoration.usefulCopies_eq_ok_iff.2 ⟨hgivesU, rfl⟩]
        -- even the packings without a copy break
        simp only [bind, Except.bind, List.range_succ_eq_map, List.mapM_cons, ih hrest]
      · rw [UsefulDecoration.usefulCopies_eq_error hgivesU]
        rfl

theorem guardedPack_eq_ok (h : ∀ u ∈ useful, ∀ l ∈ u.levels, t.Lists l.1)
    (hgives : ∀ u ∈ useful, u.GivesLevels) :
    guardedPack t useful slots levels =
      .ok ((choices t useful slots levels).map (ofChosen t levels)) := by
  have hnext : ∀ p ∈ [(⟨0, [], levels⟩ : Partial)], p.next ≤ slots.length := by simp
  obtain ⟨ends, hrun, hends⟩ := exists_foldlM_guardedExtendAll h hgives hnext
  refine SuccessfulRun.bind_eq_ok_iff.2 ⟨ends, hrun, congrArg Except.ok (hends.trans ?_)⟩
  simp [Partial.completions, ofChosen]

theorem guardedPack_eq_error (h : ∀ u ∈ useful, ∀ l ∈ u.levels, t.Lists l.1)
    (hgives : ¬ ∀ u ∈ useful, u.GivesLevels) :
    guardedPack t useful slots levels = .error .emptyStep := by
  have hnext : ∀ p ∈ [(⟨0, [], levels⟩ : Partial)], p.next ≤ slots.length := by simp
  rw [guardedPack, foldlM_guardedExtendAll_eq_error h hgives hnext (List.cons_ne_nil _ _)]
  rfl

end Packing

namespace Catalogue

variable {d : CatalogueDraft} {c : Catalogue} {r : Requirements} {u : UsefulDecoration}

variable {j : Json}

/-- Preparing what is loaded breaks at nothing.  Packing it breaks at an empty level, whatever the
slots and the levels below, if a useful decoration has one; otherwise it ends with all packings. -/
theorem guardedPack_breaks_at_empty_level
    (hread : readListed "decorations" DecorationDraft.read j = some d.decorations)
    (hd : d.resolve = .ok c) (hfew : byteMax * c.skills.skills.size ≤ Fault.wordMax)
    (r : Requirements) :
    c.guardedPrepare r = .ok (c.decorationsFor r) ∧
      (∀ e, c.decorationsFor r = .error e → e = .noDecorations) ∧
      ∀ useful, c.decorationsFor r = .ok useful →
        (c.Unmixed r → ∀ u ∈ useful, u.GivesLevels) ∧
        ∀ slots levels,
          ((∀ u ∈ useful, u.GivesLevels) → ∃ packings,
            Packing.guardedPack c.skills useful slots levels = .ok packings ∧
              Packing.all c.skills useful slots levels = .ok packings) ∧
          ((∃ u ∈ useful, ¬ u.GivesLevels) →
            Packing.guardedPack c.skills useful slots levels = .error .emptyStep ∧
              Packing.all c.skills useful slots levels = .error .emptyStep) := by
  refine ⟨guardedPrepare_of_read hread hd hfew r, ?_, ?_⟩
  · intro e he
    unfold decorationsFor at he
    dsimp only at he
    split at he
    next => exact (Except.error.inj he).symm
    next => cases he
  · intro useful huseful
    obtain rfl := eq_of_decorationsFor huseful
    have hlists : ∀ u ∈ c.usefulDecorations r, ∀ l ∈ u.levels, c.skills.Lists l.1 := by
      intro u hu l hl
      obtain ⟨e, he, -, rfl⟩ := exists_of_mem_usefulDecorations hu
      have hrecorded := CatalogueDraft.recorded_of_resolve hd (levels_le_of_readListed hread) he
      exact hrecorded.listed l (List.mem_filter.1 hl).1
    refine ⟨fun hunmixed u hu => hunmixed.givesLevels hu, fun slots levels => ⟨?_, ?_⟩⟩
    · exact fun hgives => ⟨_, Packing.guardedPack_eq_ok hlists hgives,
        Packing.all_eq_ok_iff.2 ⟨hgives, rfl⟩⟩
    · rintro ⟨u, hu, hempty⟩
      have hgives : ¬ ∀ u ∈ c.usefulDecorations r, u.GivesLevels := fun hall => hempty (hall u hu)
      exact ⟨Packing.guardedPack_eq_error hlists hgives, Packing.all_eq_error hgives⟩

/-- A jewel for two skills, with the level of the second one left open. -/
def jewelDocument (level : String) : Json :=
  .record [("decorations", .array [.record [
    ("id", .string "MIXED_JEWEL"), ("name", .string "Mixed Jewel"), ("slot_size", .number "1"),
    ("skills", .record [("ATTACK_BOOST", .number "1"), ("CRITICAL_EYE", .number level)])]])]

def jewelSkillsDraft : SkillsDraft :=
  ⟨.ofList [("ATTACK_BOOST", ⟨"Attack Boost", 7, none, none, none⟩),
    ("CRITICAL_EYE", ⟨"Critical Eye", 7, none, none, none⟩)], ∅⟩

def mixedDraft (level : String) : CatalogueDraft where
  skills := jewelSkillsDraft
  decorations := (readListed "decorations" DecorationDraft.read (jewelDocument level)).getD []
  armour := []
  charms := []
  weapons := []
  buffs := []

/-- Both skills of the jewel, at no minimum level. -/
def askedLevels : OrderedMap SkillId Nat := .ofList [(.ofIndex 0, 0), (.ofIndex 1, 0)]

/-- How packing the jewel into one slot ends, in a breach or with a number of packings. -/
def packedJewel (level : String) : Option (Except Breach Nat) :=
  (mixedDraft level).resolve.toOption.bind fun c =>
    (Requirements.make c.skills askedLevels ∅ [] ∅).toOption.bind fun r =>
      (c.decorationsFor r).toOption.map fun useful =>
        (Packing.guardedPack c.skills useful [1] ∅).map List.length

theorem exists_packed {level : String} {ending : Except Breach Nat}
    (h : packedJewel level = some ending) :
    ∃ c r useful, (mixedDraft level).resolve = .ok c ∧
      Requirements.make c.skills askedLevels ∅ [] ∅ = .ok r ∧ c.decorationsFor r = .ok useful ∧
      (Packing.guardedPack c.skills useful [1] ∅).map List.length = ending := by
  obtain ⟨c, hc, h⟩ := Option.bind_eq_some_iff.1 h
  obtain ⟨r, hr, h⟩ := Option.bind_eq_some_iff.1 h
  obtain ⟨useful, huseful, h⟩ := Option.map_eq_some_iff.1 h
  exact ⟨c, r, useful, SuccessfulRun.toOption_eq_some_iff.1 hc,
    SuccessfulRun.toOption_eq_some_iff.1 hr, SuccessfulRun.toOption_eq_some_iff.1 huseful, h⟩

theorem mixedDraft_read {level : String}
    (h : (readListed "decorations" DecorationDraft.read (jewelDocument level)).isSome = true) :
    readListed "decorations" DecorationDraft.read (jewelDocument level) =
      some (mixedDraft level).decorations := by
  obtain ⟨decorations, hread⟩ := Option.isSome_iff_exists.1 h
  rw [mixedDraft, hread]
  rfl

theorem mixedDraft_few {level : String} (h : (mixedDraft level).resolve = .ok c) :
    byteMax * c.skills.skills.size ≤ Fault.wordMax := by
  have hsize : jewelSkillsDraft.resolve.toOption.map (·.skills.size) = some 2 := by decide +kernel
  have hskills : jewelSkillsDraft.resolve = .ok c.skills :=
    (CatalogueDraft.resolves_of_resolve h).skills
  rw [hskills] at hsize
  have htwo : c.skills.skills.size = 2 := Option.some.inj hsize
  rw [htwo]
  decide

/-- With a level of each skill the jewel is packed in one way. -/
theorem guardedPack_breaks_at_empty_level_jewel :
    ∃ c r useful packings,
      readListed "decorations" DecorationDraft.read (jewelDocument "1") =
        some (mixedDraft "1").decorations ∧
      (mixedDraft "1").resolve = .ok c ∧ byteMax * c.skills.skills.size ≤ Fault.wordMax ∧
      c.guardedPrepare r = .ok (.ok useful) ∧ (∀ u ∈ useful, u.GivesLevels) ∧
      Packing.guardedPack c.skills useful [1] ∅ = .ok packings ∧ packings.length = 1 := by
  have hpacked : packedJewel "1" = some (.ok 1) := by decide +kernel
  have hread := @mixedDraft_read "1" (by decide +kernel)
  obtain ⟨c, r, useful, hc, -, huseful, hending⟩ := exists_packed hpacked
  have hfew := mixedDraft_few hc
  obtain ⟨hprepare, -, hall⟩ := guardedPack_breaks_at_empty_level hread hc hfew r
  obtain ⟨hends, hbreaks⟩ := (hall useful huseful).2 [1] ∅
  have hgives : ∀ u ∈ useful, u.GivesLevels := by
    by_contra hempty
    rw [(hbreaks (by simpa using hempty)).1] at hending
    cases hending
  obtain ⟨packings, hpackings, -⟩ := hends hgives
  rw [hpackings] at hending
  rw [huseful] at hprepare
  exact ⟨c, r, useful, packings, hread, hc, hfew, hprepare, hgives, hpackings,
    Except.ok.inj hending⟩

/-- With an empty level of the second skill, packing the jewel breaks. -/
theorem guardedPack_breaks_at_mixed_jewel :
    ¬ ∀ (j : Json) (d : CatalogueDraft) (c : Catalogue) (asked states : OrderedMap SkillId Nat)
      (removed : List SkillId) (cutoffs : OrderedMap BonusId Nat) (r : Requirements),
      readListed "decorations" DecorationDraft.read j = some d.decorations → d.resolve = .ok c →
      Requirements.make c.skills asked states removed cutoffs = .ok r →
      ∃ prepared, c.guardedPrepare r = .ok prepared ∧
        (∀ e, prepared = .error e → e = .noDecorations) ∧
        ∀ useful, prepared = .ok useful → ∀ slots levels, ∃ packings,
          Packing.guardedPack c.skills useful slots levels = .ok packings := by
  intro hall
  have hpacked : packedJewel "0" = some (.error .emptyStep) := by decide +kernel
  have hread := @mixedDraft_read "0" (by decide +kernel)
  obtain ⟨c, r, useful, hc, hr, huseful, hending⟩ := exists_packed hpacked
  obtain ⟨prepared, hprepared, -, hends⟩ := hall _ _ c _ _ _ _ r hread hc hr
  rw [guardedPrepare_of_read hread hc (mixedDraft_few hc), huseful] at hprepared
  obtain ⟨packings, hpackings⟩ := hends useful (Except.ok.inj hprepared).symm [1] ∅
  rw [hpackings] at hending
  cases hending

end Catalogue

end Loadout
