import Loadout.Proofs.AcceptedRequests
import Loadout.Proofs.SkillLimits

/-!
# Chains of secret skills

A secret skill may have a secret skill of its own, and so on along a chain that may run in a circle.
The relevant skills are those within one step of an asked skill.  So secret skills of asked skills
are always relevant, but a skill two steps away only if it is also within one step; where that holds
of all of them, everything further along the chains is relevant as well.
-/

namespace Loadout

open Std

namespace Requirements

/-- Whether a skill is reached from an asked one in a number of steps, each to a secret skill that
is not removed. -/
inductive Reached (t : SkillTable) (removed : List SkillId) (asked : OrderedMap SkillId Nat) :
    Nat → SkillId → Prop
  | asked {s : SkillId} : asked.contains s = true → Reached t removed asked 0 s
  | secret {n : Nat} {s secret : SkillId} : Reached t removed asked n s →
      (t.skill s).secretSkill = some secret → secret ∉ removed → Reached t removed asked (n + 1) secret

/-- Whether every relevant skill has its secret skill beside it, unless that one is removed. -/
def SecretClosed (t : SkillTable) (r : Requirements) : Prop :=
  ∀ s secret, r.relevant s = true → (t.skill s).secretSkill = some secret →
    r.removes secret = false → r.relevant secret = true

variable {t : SkillTable} {r : Requirements} {asked states : OrderedMap SkillId Nat}
variable {removed : List SkillId} {cutoffs : OrderedMap BonusId Nat}

theorem mem_secretsOf_iff {skills : List SkillId} {secret : SkillId} :
    secret ∈ secretsOf t removed skills ↔
      ∃ s ∈ skills, (t.skill s).secretSkill = some secret ∧ secret ∉ removed := by
  simp only [secretsOf, List.mem_filter, List.mem_filterMap, decide_eq_true_eq]
  grind

/-- What is reached can be listed, the secret skills of one step after those of the last. -/
theorem reached_iff_mem {n : Nat} {s : SkillId} :
    Reached t removed asked n s ↔ s ∈ (secretsOf t removed)^[n] asked.keys := by
  induction n generalizing s with
  | zero =>
      rw [Function.iterate_zero_apply, OrderedMap.mem_keys_iff]
      constructor
      · rintro ⟨h⟩
        exact h
      · exact .asked
  | succ n ih =>
      rw [Function.iterate_succ_apply', mem_secretsOf_iff]
      simp only [← ih]
      constructor
      · rintro ⟨⟩
        next s hs hsecret hkept => exact ⟨s, hs, hsecret, hkept⟩
      · rintro ⟨s, hs, hsecret, hkept⟩
        exact .secret hs hsecret hkept

theorem removes_iff_of_make (h : make t asked states removed cutoffs = .ok r) {s : SkillId} :
    r.removes s = false ↔ s ∉ removed := by
  rw [make_eq_ok h, removes, ← Bool.not_eq_true, List.contains_iff_mem]

theorem relevant_iff_reached (h : make t asked states removed cutoffs = .ok r) {s : SkillId} :
    r.relevant s = true ↔ ∃ n ≤ 1, Reached t removed asked n s := by
  have hrelevant : r.relevant s = (withSecrets t removed asked).contains s := by
    rw [make_eq_ok h, relevant]
  rw [hrelevant, contains_withSecrets, ← OrderedMap.mem_keys_iff]
  simp only [reached_iff_mem]
  constructor
  · rintro (hzero | hone)
    · exact ⟨0, Nat.zero_le 1, hzero⟩
    · exact ⟨1, Nat.le_refl 1, hone⟩
  · rintro ⟨n, hn, hreached⟩
    rcases Nat.le_one_iff_eq_zero_or_eq_one.1 hn with rfl | rfl
    · exact .inl hreached
    · exact .inr hreached

/-- A closed set of skills is never left along a chain. -/
theorem SecretClosed.relevant_of_reached (hclosed : r.SecretClosed t)
    (h : make t asked states removed cutoffs = .ok r) {n : Nat} {s : SkillId}
    (hs : Reached t removed asked n s) : r.relevant s = true := by
  induction hs with
  | asked hasked => exact (relevant_iff_reached h).2 ⟨0, Nat.zero_le 1, .asked hasked⟩
  | secret _ hsecret hkept ih => exact hclosed _ _ ih hsecret ((removes_iff_of_make h).2 hkept)

/-- The relevant skills are those within one step of an asked one.  They are closed under secret
skills exactly if two steps lead nowhere else, and then no number of steps does. -/
theorem secretClosed_iff_of_make (h : make t asked states removed cutoffs = .ok r) :
    (∀ s, r.relevant s = true ↔ ∃ n ≤ 1, Reached t removed asked n s) ∧
      (r.SecretClosed t ↔ ∀ s, Reached t removed asked 2 s → r.relevant s = true) ∧
      (r.SecretClosed t → ∀ n s, Reached t removed asked n s → r.relevant s = true) := by
  refine ⟨fun s => relevant_iff_reached h, ⟨?_, ?_⟩, ?_⟩
  · intro hclosed s hs
    exact hclosed.relevant_of_reached h hs
  · intro htwo s secret hs hsecret hkept
    have hkept := (removes_iff_of_make h).1 hkept
    obtain ⟨n, hn, hreached⟩ := (relevant_iff_reached h).1 hs
    rcases Nat.le_one_iff_eq_zero_or_eq_one.1 hn with rfl | rfl
    · exact (relevant_iff_reached h).2 ⟨1, Nat.le_refl 1, .secret hreached hsecret hkept⟩
    · exact htwo secret (.secret hreached hsecret hkept)
  · intro hclosed n s hs
    exact hclosed.relevant_of_reached h hs

/-- A skill with a secret skill that has a secret skill as well. -/
def chainedDraft : CatalogueDraft where
  skills := ⟨.ofList [("AGITATOR", ⟨"Agitator", 5, some 7, none, some "AGITATOR_SECRET"⟩),
      ("AGITATOR_SECRET", ⟨"Agitator Secret", 1, some 2, none, some "AGITATOR_TRUE"⟩),
      ("AGITATOR_TRUE", ⟨"Agitator True", 1, none, none, none⟩)], ∅⟩
  decorations := []
  armour := []
  charms := []
  weapons := []
  buffs := []

/-- The first two skills of the chain, at no minimum level. -/
def askedChain : OrderedMap SkillId Nat := .ofList [(.ofIndex 0, 0), (.ofIndex 1, 0)]

theorem secretClosed_iff_of_make_chained :
    ∃ c r, chainedDraft.resolve = .ok c ∧ make c.skills askedChain ∅ [] ∅ = .ok r ∧
      r.SecretClosed c.skills := by
  have hrun : ((chainedDraft.resolve.toOption.bind fun c =>
      (make c.skills askedChain ∅ [] ∅).toOption.map fun r =>
        ((secretsOf c.skills [])^[2] askedChain.keys).all r.relevant)) = some true := by
    decide +kernel
  obtain ⟨c, hc, hrun⟩ := Option.bind_eq_some_iff.1 hrun
  obtain ⟨r, hr, hall⟩ := Option.map_eq_some_iff.1 hrun
  have hc := SuccessfulRun.toOption_eq_some_iff.1 hc
  have hr := SuccessfulRun.toOption_eq_some_iff.1 hr
  refine ⟨c, r, hc, hr, (secretClosed_iff_of_make hr).2.1.2 ?_⟩
  intro s hs
  exact List.all_eq_true.1 hall s (reached_iff_mem.1 hs)

/-- The first skill of the chain alone. -/
def askedHead : OrderedMap SkillId Nat := .ofList [(.ofIndex 0, 0)]

/-- Asked for its first skill, a chain of three is left after the second. -/
theorem chain_left_at_second_step :
    ¬ ∀ (d : CatalogueDraft) (c : Catalogue) (asked states : OrderedMap SkillId Nat)
      (removed : List SkillId) (cutoffs : OrderedMap BonusId Nat) (r : Requirements),
      d.resolve = .ok c → make c.skills asked states removed cutoffs = .ok r →
      r.SecretClosed c.skills := by
  intro hall
  have hrun : ((chainedDraft.resolve.toOption.bind fun c =>
      (make c.skills askedHead ∅ [] ∅).toOption.map fun r =>
        (r.relevant (.ofIndex 1), (c.skills.skill (.ofIndex 1)).secretSkill,
          r.removes (.ofIndex 2), r.relevant (.ofIndex 2)))) =
      some (true, some (.ofIndex 2), false, false) := by
    decide +kernel
  obtain ⟨c, hc, hrun⟩ := Option.bind_eq_some_iff.1 hrun
  obtain ⟨r, hr, hrun⟩ := Option.map_eq_some_iff.1 hrun
  simp only [Prod.mk.injEq] at hrun
  obtain ⟨hsecond, hsecret, hkept, hthird⟩ := hrun
  have hclosed := hall _ c _ _ _ _ r (SuccessfulRun.toOption_eq_some_iff.1 hc)
    (SuccessfulRun.toOption_eq_some_iff.1 hr)
  rw [hclosed _ _ hsecond hsecret hkept] at hthird
  cases hthird

end Requirements

end Loadout
