import Loadout.Proofs.KeptCandidates
import Loadout.Proofs.ModifierOrder
import Loadout.Proofs.SkillLimits
import Loadout.Search.Pairing

/-!
# Ceilings bound all builds

No build of a candidate exceeds the candidate's ceiling.  The ceiling gives every relevant skill its
secret limit, which is never worse except for handicraft; and for handicraft it tries every level,
so also the one at which the build's own handicraft works.
-/

namespace Loadout

namespace Candidate

variable {t : SkillTable} {r : Requirements} {boost : Boost Rat} {weaponClass : WeaponClass}
variable {stats : WeaponStats} {ceiling : Rat}

theorem le_of_foldlM_larger {reach : Nat → Except Fault Rat} {tries : List Nat} {first : Rat}
    (h : tries.foldlM (fun best n => do return Reckoning.larger best (← reach n)) first =
      .ok ceiling) :
    first ≤ ceiling ∧ ∀ n ∈ tries, ∃ x, reach n = .ok x ∧ x ≤ ceiling := by
  induction tries generalizing first with
  | nil =>
      cases h
      simp
  | cons n rest ih =>
      rw [List.foldlM_cons] at h
      obtain ⟨best, hbest, hrest⟩ := SuccessfulRun.bind_eq_ok_iff.1 h
      obtain ⟨x, hx, hlarger⟩ := SuccessfulRun.bind_eq_ok_iff.1 hbest
      obtain ⟨hle, hall⟩ := ih hrest
      rw [← Except.ok.inj hlarger, Reckoning.larger_eq_max] at hle
      refine ⟨(le_max_left _ _).trans hle, fun m hm => ?_⟩
      rcases List.mem_cons.1 hm with rfl | hm
      · exact ⟨x, hx, (le_max_right _ _).trans hle⟩
      · exact hall m hm

/-- Without handicraft the ceiling is what the maximum levels give. -/
theorem raw_of_ceilingOf_none (h : ceilingOf t r boost weaponClass stats = .ok ceiling)
    (hnone : t.holder.handicraft.filter (r.maximumLevels t).has = none) :
    ∃ e, Effective.ofLevels t r boost weaponClass stats (r.maximumLevels t) = .ok e ∧
      e.raw ≤ ceiling := by
  unfold ceilingOf at h
  simp only [hnone] at h
  obtain ⟨e, he, hraw⟩ := SuccessfulRun.bind_eq_ok_iff.1 h
  exact ⟨e, he, (Except.ok.inj hraw).le⟩

/-- With handicraft the ceiling is no lower than what the maximum levels give with any level of
handicraft. -/
theorem raw_le_of_ceilingOf_some (h : ceilingOf t r boost weaponClass stats = .ok ceiling)
    {s : SkillId} (hsome : t.holder.handicraft.filter (r.maximumLevels t).has = some s) {n : Nat}
    (hn : n ≤ (r.maximumLevels t).count s) :
    ∃ e, Effective.ofLevels t r boost weaponClass stats ((r.maximumLevels t).set s n) = .ok e ∧
      e.raw ≤ ceiling := by
  unfold ceilingOf at h
  simp only [hsome] at h
  obtain ⟨lowest, hlowest, h⟩ := SuccessfulRun.bind_eq_ok_iff.1 h
  obtain ⟨hfirst, hall⟩ := le_of_foldlM_larger h
  cases n with
  | zero =>
      obtain ⟨e, he, hraw⟩ := SuccessfulRun.bind_eq_ok_iff.1 hlowest
      exact ⟨e, he, (Except.ok.inj hraw).le.trans hfirst⟩
  | succ n =>
      obtain ⟨x, hx, hle⟩ := hall n (List.mem_range.2 hn)
      obtain ⟨e, he, hraw⟩ := SuccessfulRun.bind_eq_ok_iff.1 hx
      exact ⟨e, he, (Except.ok.inj hraw).le.trans hle⟩

theorem present_maximumLevels (ht : t.LimitsInOrder) {levels : SkillLevels}
    (hrelevant : ∀ s, r.relevant s = false → levels.count s = 0) {s : SkillId}
    (h : Modifiers.present r levels s = true) : (r.maximumLevels t).count s = t.cap s ∧
      Modifiers.present r (r.maximumLevels t) s = true := by
  obtain ⟨hremoved, hpos⟩ := Modifiers.present_iff.1 h
  have hrel : r.relevant s = true := by
    cases hrel : r.relevant s with
    | true => rfl
    | false => rw [hrelevant s hrel] at hpos; exact absurd hpos (Nat.lt_irrefl 0)
  have hcount : (r.maximumLevels t).count s = t.cap s := by
    rw [Requirements.count_maximumLevels, hrel, hremoved]
    rfl
  have hcap : 1 ≤ t.cap s := (ht s).1.trans (ht s).2
  exact ⟨hcount, Modifiers.present_iff.2 ⟨hremoved, hcount ▸ hcap⟩⟩

theorem level_le_maximumLevels (ht : t.LimitsInOrder) {levels : SkillLevels}
    (hrelevant : ∀ s, r.relevant s = false → levels.count s = 0) (x : Effect) :
    Modifiers.level t r levels x ≤ Modifiers.level t r (r.maximumLevels t) x := by
  refine Modifiers.level_mono ht (fun s hs => (present_maximumLevels ht hrelevant hs).2)
    (fun s hs => ?_) x
  rw [(present_maximumLevels ht hrelevant hs).1]
  exact (min_le_right _ _).trans (Modifiers.usableLimit_le_cap ht levels s)

/-- The maximum levels, but one skill at the level at which it works in given ones. -/
def matching (t : SkillTable) (r : Requirements) (levels : SkillLevels) (s : SkillId) :
    SkillLevels :=
  (r.maximumLevels t).set s (min (levels.count s) (Modifiers.usableLimit t r levels s))

theorem count_matching_self (levels : SkillLevels) (s : SkillId) :
    (matching t r levels s).count s =
      min (levels.count s) (Modifiers.usableLimit t r levels s) := by
  rw [matching, Tally.count_set_self]

theorem present_matching_self (ht : t.LimitsInOrder) (levels : SkillLevels) (s : SkillId) :
    Modifiers.present r (matching t r levels s) s = Modifiers.present r levels s := by
  have hone := Modifiers.one_le_usableLimit (r := r) ht levels s
  rw [Bool.eq_iff_iff, Modifiers.present_iff, Modifiers.present_iff, count_matching_self]
  refine and_congr_right fun _ => ?_
  omega

theorem present_matching (ht : t.LimitsInOrder) {levels : SkillLevels}
    (hrelevant : ∀ s, r.relevant s = false → levels.count s = 0) (s : SkillId) {j : SkillId}
    (hj : Modifiers.present r levels j = true) :
    Modifiers.present r (matching t r levels s) j = true := by
  by_cases hjs : j = s
  · subst hjs
    exact (present_matching_self ht levels j).trans hj
  · obtain ⟨hremoved, hpos⟩ := Modifiers.present_iff.1 (present_maximumLevels ht hrelevant hj).2
    rw [Modifiers.present_iff, matching, Tally.count_set_of_ne _ _ hjs]
    exact ⟨hremoved, hpos⟩

theorem level_le_matching (ht : t.LimitsInOrder) {levels : SkillLevels}
    (hrelevant : ∀ s, r.relevant s = false → levels.count s = 0) (s : SkillId) (x : Effect) :
    Modifiers.level t r levels x ≤ Modifiers.level t r (matching t r levels s) x := by
  refine Modifiers.level_mono ht (fun j => present_matching ht hrelevant s) (fun j hj => ?_) x
  by_cases hjs : j = s
  · subst hjs
    rw [count_matching_self]
  · rw [matching, Tally.count_set_of_ne _ _ hjs, (present_maximumLevels ht hrelevant hj).1]
    exact (min_le_right _ _).trans (Modifiers.usableLimit_le_cap ht levels j)

theorem level_matching_eq (ht : t.LimitsInOrder) {levels : SkillLevels}
    (hrelevant : ∀ s, r.relevant s = false → levels.count s = 0) {s : SkillId} {x : Effect}
    (hs : t.holder x = some s) :
    Modifiers.level t r levels x = Modifiers.level t r (matching t r levels s) x := by
  have hlimit : min (levels.count s) (Modifiers.usableLimit t r levels s) ≤
      Modifiers.usableLimit t r (matching t r levels s) s :=
    (min_le_right _ _).trans
      (Modifiers.usableLimit_mono ht (fun j => present_matching ht hrelevant s) s)
  rw [Modifiers.level_of_holder hs, Modifiers.level_of_holder hs, present_matching_self ht,
    count_matching_self, min_eq_left hlimit]

/-- Some levels that the ceiling has tried work nowhere below given ones, and handicraft works at
the same level. -/
theorem exists_tried_levels (ht : t.LimitsInOrder)
    (h : ceilingOf t r boost weaponClass stats = .ok ceiling) {levels : SkillLevels}
    (hrelevant : ∀ s, r.relevant s = false → levels.count s = 0) :
    ∃ tried e, Effective.ofLevels t r boost weaponClass stats tried = .ok e ∧ e.raw ≤ ceiling ∧
      (∀ x, Modifiers.level t r levels x ≤ Modifiers.level t r tried x) ∧
      Modifiers.level t r levels .handicraft = Modifiers.level t r tried .handicraft := by
  cases hholder : t.holder.handicraft.filter (r.maximumLevels t).has with
  | none =>
      -- handicraft is not among the maximum levels, so it works nowhere
      have habsent : ∀ s, t.holder .handicraft = some s →
          Modifiers.present r (r.maximumLevels t) s = false := by
        intro s hs
        have hhas := Option.filter_eq_none_iff.1 hholder s hs
        simpa [Modifiers.present] using fun _ => hhas
      have hzero := Modifiers.level_eq_zero habsent
      obtain ⟨e, he, hle⟩ := raw_of_ceilingOf_none h hholder
      have hlevel := level_le_maximumLevels ht hrelevant
      refine ⟨r.maximumLevels t, e, he, hle, hlevel, ?_⟩
      rw [hzero]
      exact Nat.le_zero.1 (hzero ▸ hlevel .handicraft)
  | some s =>
      obtain ⟨hs, hhas⟩ := Option.filter_eq_some_iff.1 hholder
      have hcap : (r.maximumLevels t).count s = t.cap s := by
        have hpos : 0 < (r.maximumLevels t).count s := of_decide_eq_true hhas
        rw [Requirements.count_maximumLevels] at hpos ⊢
        split at hpos
        next hrel => rw [if_pos hrel]
        next => exact absurd hpos (Nat.lt_irrefl 0)
      have hn : min (levels.count s) (Modifiers.usableLimit t r levels s) ≤
          (r.maximumLevels t).count s :=
        hcap ▸ (min_le_right _ _).trans (Modifiers.usableLimit_le_cap ht levels s)
      obtain ⟨e, he, hle⟩ := raw_le_of_ceilingOf_some h hholder hn
      exact ⟨matching t r levels s, e, he, hle, level_le_matching ht hrelevant s,
        level_matching_eq ht hrelevant hs⟩

/-- The ceiling is no lower than the effective raw attack of any relevant levels. -/
theorem raw_le_ceiling (ht : t.LimitsInOrder)
    (h : ceilingOf t r boost weaponClass stats = .ok ceiling) {levels : SkillLevels}
    (hrelevant : ∀ s, r.relevant s = false → levels.count s = 0) {e : Effective Rat}
    (he : Effective.ofLevels t r boost weaponClass stats levels = .ok e) : e.raw ≤ ceiling := by
  obtain ⟨tried, f, hf, hle, hlevel, hhandicraft⟩ := exists_tried_levels ht h hrelevant
  exact (Effective.raw_le_of_level_le hlevel hhandicraft he hf).trans hle

end Candidate

namespace Request

theorem ceilingOf_of_mem_candidates {q : Request} {c : Catalogue}
    {candidates : List (Candidate Rat)} (h : q.candidates c = .ok candidates) {w : Candidate Rat}
    (hw : w ∈ candidates) :
    Candidate.ceilingOf c.skills q.requirements q.consumables.boost w.weapon.weapon.weaponClass
      w.stats = .ok w.ceiling := by
  obtain ⟨_, rated, -, hrated, hperm⟩ := candidates_eq_ok h
  obtain ⟨_, -, hkept⟩ := SuccessfulRun.exists_item hrated (hperm.mem_iff.1 hw)
  exact hkept.ceiling

end Request

namespace Setting

theorem effective_of_find? {x : Setting Rat} {set : ArmourSet} {w : Candidate Rat} {p : Packing}
    {f : Find Rat} (h : x.find? set w p = .ok (some f)) :
    Effective.ofLevels x.skills x.requirements x.boost w.weapon.weapon.weaponClass w.stats
      (x.requirements.restrictLevels
        (SkillLevels.grant x.skills p.levels (pairedPieces set w))) = .ok f.effective := by
  unfold find? at h
  dsimp only at h
  split at h
  next =>
    obtain ⟨effective, heffective, hfind⟩ := SuccessfulRun.bind_eq_ok_iff.1 h
    cases hfind
    exact heffective
  next => cases h

/-- In a loaded catalogue, no build of a request's candidate exceeds the candidate's ceiling,
whatever armour set it is paired with and however its slots are filled. -/
theorem find_raw_le_ceiling {d : CatalogueDraft} {c : Catalogue} (hc : d.resolve = .ok c)
    {q : Request} {candidates : List (Candidate Rat)}
    (hcandidates : q.candidates c = .ok candidates)
    {w : Candidate Rat} (hw : w ∈ candidates) (useful : List UsefulDecoration) (set : ArmourSet)
    (p : Packing) {f : Find Rat} (hf : (ofRequest c q useful).find? set w p = .ok (some f)) :
    f.effective.raw ≤ w.ceiling := by
  have hrelevant : ∀ s, q.requirements.relevant s = false →
      (q.requirements.restrictLevels
        (SkillLevels.grant c.skills p.levels (pairedPieces set w))).count s = 0 := by
    intro s hs
    rw [Requirements.count_restrictLevels, hs]
    rfl
  have heffective := effective_of_find? hf
  exact Candidate.raw_le_ceiling (CatalogueDraft.limitsInOrder_of_resolve hc)
    (Request.ceilingOf_of_mem_candidates hcandidates hw) hrelevant heffective

def bowDraft : CatalogueDraft where
  skills := ⟨.ofList [("ATTACK_BOOST", ⟨"Attack Boost", 7, none, none, none⟩)], ∅⟩
  decorations := []
  armour := []
  charms := []
  weapons := [{
    id := "bow", name := "Bow", weaponClass := .bow, rarity := 12, trueRaw := 200, affinity := 0
    skill := none, slots := [], element := {}, gauge := none, constantSharpness := false
    augments := .none, upgrades := .none }]
  buffs := []

def bowRequest : Request where
  allowLow := true
  allowHigh := true
  allowMaster := true
  healthRegenRequired := false
  weaponClass := .bow
  elements := []
  damageModel := ⟨100, fun _ => none, 100, fun _ => 0⟩
  requirements := ⟨.ofList [(⟨0⟩, 0)], ∅, [], ∅, []⟩
  consumables := ⟨[], [], 0⟩

theorem find_raw_le_ceiling_bow :
    ∃ c candidates w f, bowDraft.resolve = .ok c ∧ bowRequest.candidates c = .ok candidates ∧
      w ∈ candidates ∧
      (ofRequest c bowRequest []).find? ⟨.bare, [], ∅⟩ w ⟨[], .ofList [(⟨0⟩, 3)]⟩ =
        .ok (some f) ∧
      f.effective.raw = (209 : Rat) ∧ f.effective.raw ≤ w.ceiling := by
  have hrun : ((bowDraft.resolve.toOption.bind fun c =>
      (bowRequest.candidates c).toOption.bind fun candidates => candidates.head?.bind fun w =>
        ((ofRequest c bowRequest []).find? ⟨.bare, [], ∅⟩ w
          ⟨[], .ofList [(⟨0⟩, 3)]⟩).toOption.join).map (·.effective.raw)) = some (209 : Rat) := by
    decide +kernel
  obtain ⟨f, hf, hraw⟩ := Option.map_eq_some_iff.1 hrun
  obtain ⟨c, hc, hf⟩ := Option.bind_eq_some_iff.1 hf
  obtain ⟨candidates, hcandidates, hf⟩ := Option.bind_eq_some_iff.1 hf
  obtain ⟨w, hw, hf⟩ := Option.bind_eq_some_iff.1 hf
  have hc := SuccessfulRun.toOption_eq_some_iff.1 hc
  have hcandidates := SuccessfulRun.toOption_eq_some_iff.1 hcandidates
  have hw := List.mem_of_mem_head? hw
  have hf := SuccessfulRun.toOption_eq_some_iff.1 (Option.join_eq_some_iff.1 hf)
  exact ⟨c, candidates, w, f, hc, hcandidates, hw, hf, hraw,
    find_raw_le_ceiling hc hcandidates hw [] _ _ hf⟩

end Setting

end Loadout
