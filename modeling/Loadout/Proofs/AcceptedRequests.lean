import Loadout.Proofs.SuccessfulRun
import Loadout.Request
import Mathlib.Data.List.Induction
import Mathlib.Data.List.Nodup
import Mathlib.Tactic.Common

/-!
# Accepted requests

The requirements of an accepted request fit together: the asked skills are relevant, and so are
their secret skills unless these are removed; a set bonus is relevant exactly if it is in the table
and has a cutoff or a stage that grants a relevant skill, and nothing is listed twice.
-/

namespace Loadout

open Std

namespace OrderedMap

variable {κ ν : Type} [Ord κ]

theorem nodup_keys [TransOrd κ] [LawfulEqOrd κ] (m : OrderedMap κ ν) : m.keys.Nodup := by
  rw [keys, List.Nodup, List.pairwise_map]
  apply m.ascending.imp
  intro a b hlt heq
  rw [heq, ReflOrd.compare_self] at hlt
  cases hlt

theorem mem_keys_iff [LawfulEqOrd κ] {m : OrderedMap κ ν} {k : κ} :
    k ∈ m.keys ↔ m.contains k = true := by
  rw [keys, List.mem_map, contains, Option.isSome_iff_exists]
  constructor
  · rintro ⟨⟨k, v⟩, hmem, rfl⟩
    exact ⟨v, get?_eq_some_iff.2 hmem⟩
  · rintro ⟨v, hv⟩
    exact ⟨(k, v), get?_eq_some_iff.1 hv, rfl⟩

variable [TransOrd κ] [LawfulEqOrd κ]

theorem contains_insert {m : OrderedMap κ ν} {k j : κ} {v : ν} :
    (m.insert k v).contains j = true ↔ j = k ∨ m.contains j = true := by
  by_cases hjk : j = k
  · subst hjk
    simp [contains]
  · simp [contains, hjk, get?_insert_of_ne]

theorem contains_foldl_insert (l : List (κ × ν)) (m : OrderedMap κ ν) (k : κ) :
    (l.foldl (fun m e => m.insert e.1 e.2) m).contains k = true ↔
      m.contains k = true ∨ k ∈ l.map (·.1) := by
  induction l generalizing m with
  | nil => simp
  | cons e rest ih =>
      rw [List.foldl_cons, ih, contains_insert, List.map_cons, List.mem_cons]
      tauto

theorem mem_of_mem_ofList {l : List (κ × ν)} {e : κ × ν} (h : e ∈ (ofList l).entries) : e ∈ l := by
  induction l using List.reverseRecOn with
  | nil => cases h
  | append_singleton l d ih =>
      rw [ofList, List.foldl_append] at h
      rcases mem_place h with rfl | h
      · exact List.mem_append_right l (List.mem_singleton_self _)
      · exact List.mem_append_left [d] (ih h)

theorem mem_keys_ofList {l : List (κ × ν)} {k : κ} :
    k ∈ (ofList l).keys ↔ k ∈ l.map (·.1) := by
  have hempty : (empty : OrderedMap κ ν).contains k = false := rfl
  rw [mem_keys_iff, ofList, contains_foldl_insert, hempty]
  simp

end OrderedMap

theorem nodup_eraseDups {α : Type} [BEq α] [LawfulBEq α] : ∀ l : List α, l.eraseDups.Nodup
  | [] => by simp
  | a :: rest => by
      have hrest := nodup_eraseDups (rest.filter fun b => !b == a)
      rw [List.eraseDups_cons, List.nodup_cons]
      constructor
      · simp
      · exact hrest
termination_by l => l.length
decreasing_by exact Nat.lt_succ_of_le (List.length_filter_le _ _)

namespace InputError

theorem ofContradiction_eq_ok_iff {α : Type} {run : Except Contradiction α} {a : α} :
    ofContradiction run = .ok a ↔ run = .ok a := by
  cases run <;> simp [ofContradiction]

theorem find_eq_ok_iff {α : Type} {kind : Kind} {look : String → Option α} {id : String} {a : α} :
    find kind look id = .ok a ↔ look id = some a := by
  unfold find
  cases look id <;> simp

end InputError

theorem SkillTable.mem_bonusIds_of_stage {t : SkillTable} {b : BonusId} {stage : Stage}
    (h : stage ∈ (t.bonus b).stages) : b ∈ t.bonusIds := by
  by_cases hb : b.index.toNat < t.bonuses.size
  · have hback : BonusId.ofIndex b.index.toNat = b := by simp [BonusId.ofIndex]
    exact List.mem_map.2 ⟨b.index.toNat, List.mem_range.2 hb, hback⟩
  · -- a handle without an entry stands for a set bonus without stages
    have hdefault : t.bonus b = default := by simp [SkillTable.bonus, Array.getD, hb]
    rw [hdefault] at h
    cases h

namespace Requirements

variable {t : SkillTable} {r : Requirements}
variable {asked states : OrderedMap SkillId Nat} {removed : List SkillId}
variable {cutoffs : OrderedMap BonusId Nat}

theorem make_eq_ok (h : make t asked states removed cutoffs = .ok r) :
    r = { minimum := withSecrets t removed asked, states, removed, cutoffs
          relevantBonuses := (t.bonusIds.filter
            (bonusMatters t (withSecrets t removed asked) cutoffs)).eraseDups } := by
  obtain ⟨_, -, h⟩ := SuccessfulRun.bind_eq_ok_iff.1 h
  obtain ⟨_, -, h⟩ := SuccessfulRun.bind_eq_ok_iff.1 h
  obtain ⟨_, -, h⟩ := SuccessfulRun.bind_eq_ok_iff.1 h
  exact (Except.ok.inj h).symm

theorem contains_withSecrets {s : SkillId} :
    (withSecrets t removed asked).contains s = true ↔
      asked.contains s = true ∨ s ∈ secretsOf t removed asked.keys := by
  have hfold : ∀ (secrets : List SkillId) (m : OrderedMap SkillId Nat),
      (secrets.foldl (fun m s => if m.contains s then m else m.insert s 0) m).contains s = true ↔
        m.contains s = true ∨ s ∈ secrets := by
    intro secrets
    induction secrets with
    | nil => simp
    | cons secret rest ih =>
        intro m
        rw [List.foldl_cons, ih, List.mem_cons]
        by_cases hknown : m.contains secret = true
        · rw [if_pos hknown]
          constructor
          · tauto
          · rintro (h | rfl | h)
            · exact .inl h
            · exact .inl hknown
            · exact .inr h
        · rw [if_neg hknown, OrderedMap.contains_insert]
          tauto
  exact hfold _ asked

/-- Secret skills are asked for at level 0. -/
theorem mem_withSecrets {e : SkillId × Nat} (h : e ∈ (withSecrets t removed asked).entries) :
    e ∈ asked.entries ∨ e.2 = 0 := by
  have hfold : ∀ (secrets : List SkillId) (m : OrderedMap SkillId Nat),
      e ∈ (secrets.foldl (fun m s => if m.contains s then m else m.insert s 0) m).entries →
        e ∈ m.entries ∨ e.2 = 0 := by
    intro secrets
    induction secrets with
    | nil => exact fun m h => .inl h
    | cons secret rest ih =>
        intro m h
        rcases ih _ h with h | hzero
        · dsimp only at h
          split at h
          next => exact .inl h
          next =>
            rcases OrderedMap.mem_place h with rfl | h
            · exact .inr rfl
            · exact .inl h
        · exact .inr hzero
  exact hfold _ asked h

/-- A set of pieces with no more pieces of any set bonus that has a cutoff is within the cutoffs as
well. -/
theorem withinCutoffs_of_count_le {pieces pieces' : SetPieces}
    (h : ∀ b, r.cutoffs.contains b = true → pieces.count b ≤ pieces'.count b)
    (hwithin : r.withinCutoffs pieces' = true) : r.withinCutoffs pieces = true := by
  unfold withinCutoffs at hwithin ⊢
  rw [List.all_eq_true] at hwithin ⊢
  intro e he
  have hcontains : r.cutoffs.contains e.1 = true :=
    OrderedMap.mem_keys_iff.1 (List.mem_map_of_mem he)
  exact decide_eq_true (Nat.lt_of_le_of_lt (h e.1 hcontains) (of_decide_eq_true (hwithin e he)))

/-- What holds of all accepted requirements, whatever they ask for. -/
structure Coherent (t : SkillTable) (r : Requirements) : Prop where
  bonusRelevant_iff : ∀ b, r.bonusRelevant b = true ↔
    b ∈ t.bonusIds ∧ bonusMatters t r.minimum r.cutoffs b = true
  nodup_relevantBonuses : r.relevantBonuses.Nodup
  cutoff_listed : ∀ b, r.cutoffs.contains b = true → b ∈ t.bonusIds

theorem coherent_of_make (h : make t asked states removed cutoffs = .ok r)
    (hcutoffs : ∀ b, cutoffs.contains b = true → b ∈ t.bonusIds) : Coherent t r := by
  have hr := make_eq_ok h
  subst hr
  constructor
  · intro b
    rw [bonusRelevant, List.contains_iff_mem, List.mem_eraseDups, List.mem_filter]
  · exact nodup_eraseDups _
  · exact hcutoffs

variable (hr : Coherent t r)
include hr

theorem Coherent.bonusRelevant_of_cutoff {b : BonusId} (h : r.cutoffs.contains b = true) :
    r.bonusRelevant b = true := by
  have hlisted := hr.cutoff_listed b h
  have hmatters : bonusMatters t r.minimum r.cutoffs b = true := by simp [bonusMatters, h]
  exact (hr.bonusRelevant_iff b).2 ⟨hlisted, hmatters⟩

/-- A set bonus that is not relevant has no stage with a relevant skill. -/
theorem Coherent.relevant_of_stage {b : BonusId} {stage : Stage}
    (hstage : stage ∈ (t.bonus b).stages) (hrelevant : r.relevant stage.skill = true) :
    r.bonusRelevant b = true := by
  have hmatters : bonusMatters t r.minimum r.cutoffs b = true := by
    rw [bonusMatters, Bool.or_eq_true, List.any_eq_true]
    exact .inr ⟨stage, hstage, hrelevant⟩
  exact (hr.bonusRelevant_iff b).2 ⟨SkillTable.mem_bonusIds_of_stage hstage, hmatters⟩

end Requirements

namespace Catalogue

variable {c : Catalogue}

theorem mem_keys_of_resolveKeys {κ ν : Type} [Ord κ] [TransOrd κ] [LawfulEqOrd κ] {kind : Kind}
    {look : String → Option κ} {m : OrderedMap String ν} {found : OrderedMap κ ν}
    (h : resolveKeys kind look m = .ok found) {k : κ} :
    k ∈ found.keys ↔ ∃ id ∈ m.keys, look id = some k := by
  obtain ⟨entries, hentries, hfound⟩ := SuccessfulRun.bind_eq_ok_iff.1 h
  have hruns := SuccessfulRun.mapM_eq_ok_iff.1 hentries
  have hentry : ∀ (e : String × ν) (e' : κ × ν),
      (do return (← InputError.find kind look e.1, e.2)) = Except.ok (ε := InputError) e' ↔
        look e.1 = some e'.1 ∧ e'.2 = e.2 := by
    intro e e'
    rw [SuccessfulRun.bind_eq_ok_iff]
    constructor
    · rintro ⟨k, hk, heq⟩
      cases heq
      exact ⟨InputError.find_eq_ok_iff.1 hk, rfl⟩
    · rintro ⟨hk, hvalue⟩
      exact ⟨e'.1, InputError.find_eq_ok_iff.2 hk, by rw [← hvalue]; rfl⟩
  cases hfound
  rw [OrderedMap.mem_keys_ofList, List.mem_map, OrderedMap.keys]
  constructor
  · rintro ⟨e', he', rfl⟩
    obtain ⟨e, he, hrun⟩ := SuccessfulRun.exists_item hruns he'
    exact ⟨e.1, List.mem_map_of_mem he, ((hentry e e').1 hrun).1⟩
  · rintro ⟨id, hid, hk⟩
    obtain ⟨e, he, rfl⟩ := List.mem_map.1 hid
    obtain ⟨e', he', hrun⟩ := SuccessfulRun.exists_result hruns he
    have hsame : some e'.1 = some k := ((hentry e e').1 hrun).1.symm.trans hk
    exact ⟨e', he', Option.some.inj hsame⟩

theorem exists_of_mem_resolveKeys {κ ν : Type} [Ord κ] [TransOrd κ] [LawfulEqOrd κ] {kind : Kind}
    {look : String → Option κ} {m : OrderedMap String ν} {found : OrderedMap κ ν}
    (h : resolveKeys kind look m = .ok found) {e' : κ × ν} (he' : e' ∈ found.entries) :
    ∃ e ∈ m.entries, e'.2 = e.2 := by
  obtain ⟨entries, hentries, hfound⟩ := SuccessfulRun.bind_eq_ok_iff.1 h
  cases hfound
  obtain ⟨e, he, hrun⟩ := SuccessfulRun.exists_item (SuccessfulRun.mapM_eq_ok_iff.1 hentries)
    (OrderedMap.mem_of_mem_ofList he')
  obtain ⟨k, -, heq⟩ := SuccessfulRun.bind_eq_ok_iff.1 hrun
  cases heq
  exact ⟨e, he, rfl⟩

/-- What a request document asks for, with its ids found. -/
structure Asks (c : Catalogue) (d : RequirementsDraft) (asked states : OrderedMap SkillId Nat)
    (removed : List SkillId) (cutoffs : OrderedMap BonusId Nat) : Prop where
  asked : resolveKeys .skill c.skills.findSkill? d.selected = .ok asked
  states : resolveKeys .skill c.skills.findSkill? d.forcedStates = .ok states
  removed : d.removed.mapM (InputError.find .skill c.skills.findSkill?) = .ok removed
  cutoffs : resolveKeys .bonus c.skills.findBonus? d.cutoffs = .ok cutoffs

theorem resolveRequirements_eq_ok {d : RequirementsDraft} {r : Requirements}
    (h : c.resolveRequirements d = .ok r) :
    ∃ asked states removed cutoffs, c.Asks d asked states removed cutoffs ∧
      Requirements.make c.skills asked states removed cutoffs = .ok r := by
  obtain ⟨asked, hasked, h⟩ := SuccessfulRun.bind_eq_ok_iff.1 h
  obtain ⟨states, hstates, h⟩ := SuccessfulRun.bind_eq_ok_iff.1 h
  obtain ⟨removed, hremoved, h⟩ := SuccessfulRun.bind_eq_ok_iff.1 h
  obtain ⟨cutoffs, hcutoffs, h⟩ := SuccessfulRun.bind_eq_ok_iff.1 h
  exact ⟨asked, states, removed, cutoffs, ⟨hasked, hstates, hremoved, hcutoffs⟩,
    InputError.ofContradiction_eq_ok_iff.1 h⟩

theorem mem_bonusIds_of_findBonus? {t : SkillTable} {id : String} {b : BonusId}
    (h : t.findBonus? id = some b) : b ∈ t.bonusIds := by
  obtain ⟨n, hn, rfl⟩ := Option.map_eq_some_iff.1 h
  have hsize : n < t.bonuses.size := by
    obtain ⟨hsize, -⟩ := Array.findIdx?_eq_some_iff_getElem.1 hn
    exact hsize
  exact List.mem_map_of_mem (List.mem_range.2 hsize)

theorem coherent_of_resolveRequirements {d : RequirementsDraft} {r : Requirements}
    (h : c.resolveRequirements d = .ok r) : r.Coherent c.skills := by
  obtain ⟨asked, states, removed, cutoffs, hasks, hmake⟩ := resolveRequirements_eq_ok h
  apply Requirements.coherent_of_make hmake
  intro b hb
  obtain ⟨id, -, hfound⟩ :=
    (mem_keys_of_resolveKeys hasks.cutoffs).1 (OrderedMap.mem_keys_iff.2 hb)
  exact mem_bonusIds_of_findBonus? hfound

end Catalogue

namespace Request

variable {c : Catalogue} {d : RequestDraft} {q : Request}

theorem requirements_of_resolve (h : resolve c d = .ok q) :
    c.resolveRequirements d.requirements = .ok q.requirements := by
  obtain ⟨requirements, hrequirements, h⟩ := SuccessfulRun.bind_eq_ok_iff.1 h
  obtain ⟨consumables, -, h⟩ := SuccessfulRun.bind_eq_ok_iff.1 h
  cases h
  exact hrequirements

theorem coherent_of_resolve (h : resolve c d = .ok q) : q.requirements.Coherent c.skills :=
  Catalogue.coherent_of_resolveRequirements (requirements_of_resolve h)

theorem removes_of_resolve (h : resolve c d = .ok q) {id : String} {s : SkillId}
    (hid : id ∈ d.requirements.removed) (hs : c.skills.findSkill? id = some s) :
    q.requirements.removes s = true := by
  obtain ⟨asked, states, removed, cutoffs, hasks, hmake⟩ :=
    Catalogue.resolveRequirements_eq_ok (requirements_of_resolve h)
  have hruns := SuccessfulRun.mapM_eq_ok_iff.1 hasks.removed
  obtain ⟨s', hs', hfound⟩ := SuccessfulRun.exists_result hruns hid
  have hsame : some s = some s' := hs.symm.trans (InputError.find_eq_ok_iff.1 hfound)
  rw [Option.some.inj hsame, Requirements.make_eq_ok hmake, Requirements.removes]
  exact List.contains_iff_mem.2 hs'

/-- A selected skill is relevant, and its secret skill too unless that one is removed. -/
theorem relevant_of_resolve (h : resolve c d = .ok q) {id : String} {s : SkillId}
    (hid : id ∈ d.requirements.selected.keys) (hs : c.skills.findSkill? id = some s) :
    q.requirements.relevant s = true ∧ ∀ secret, (c.skills.skill s).secretSkill = some secret →
      q.requirements.removes secret = true ∨ q.requirements.relevant secret = true := by
  obtain ⟨asked, states, removed, cutoffs, hasks, hmake⟩ :=
    Catalogue.resolveRequirements_eq_ok (requirements_of_resolve h)
  have hasked : s ∈ asked.keys := (Catalogue.mem_keys_of_resolveKeys hasks.asked).2 ⟨id, hid, hs⟩
  rw [Requirements.make_eq_ok hmake]
  constructor
  · exact Requirements.contains_withSecrets.2 (.inl (OrderedMap.mem_keys_iff.1 hasked))
  · intro secret hsecret
    by_cases hremoved : secret ∈ removed
    · exact .inl (List.contains_iff_mem.2 hremoved)
    · refine .inr (Requirements.contains_withSecrets.2 (.inr ?_))
      rw [Requirements.secretsOf, List.mem_filter, List.mem_filterMap]
      exact ⟨⟨s, hasked, hsecret⟩, decide_eq_true hremoved⟩

/-- Where no level is asked for, every minimum is 0. -/
theorem minimum_of_resolve (h : resolve c d = .ok q)
    (hzero : ∀ e ∈ d.requirements.selected.entries, e.2 = 0) :
    ∀ e ∈ q.requirements.minimum.entries, e.2 = 0 := by
  obtain ⟨asked, states, removed, cutoffs, hasks, hmake⟩ :=
    Catalogue.resolveRequirements_eq_ok (requirements_of_resolve h)
  rw [Requirements.make_eq_ok hmake]
  intro e he
  rcases Requirements.mem_withSecrets he with he | he
  · obtain ⟨e', he', hsame⟩ := Catalogue.exists_of_mem_resolveKeys hasks.asked he
    exact hsame.trans (hzero e' he')
  · exact he

theorem cutoffs_of_resolve (h : resolve c d = .ok q) (hnone : d.requirements.cutoffs = ∅) :
    q.requirements.cutoffs = ∅ := by
  obtain ⟨asked, states, removed, cutoffs, hasks, hmake⟩ :=
    Catalogue.resolveRequirements_eq_ok (requirements_of_resolve h)
  have hcutoffs := hasks.cutoffs
  rw [hnone] at hcutoffs
  rw [Requirements.make_eq_ok hmake]
  exact (Except.ok.inj hcutoffs).symm

end Request

end Loadout
