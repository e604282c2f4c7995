import Loadout.Proofs.LinearReckoning
import Loadout.Proofs.SuccessfulRun
import Loadout.Search.Sweep

/-!
# The search in order finds the first best build

A search in order cuts its candidates back while a position walks along them, and passes the bar
into every pairing.  It is compared here with the plain list of all builds of all pairings, sets
first, then candidates, then packings: the search holds the first of those builds with the highest
effective raw attack.

The held build is followed through the search as the first best build of everything passed so far,
whether it was looked at or cut.  Cut candidates stand at the end, because the candidates are sorted
by descending ceiling, and none of their builds exceeds the held one.
-/

namespace Loadout

variable {R : Type} [Reckoning R]

namespace Find

/-- The held build after further builds have been looked at. -/
def improve (held : Option (Find R)) (finds : List (Find R)) : Option (Find R) :=
  (bestAbove (held.map (·.effective.raw)) finds).or held

@[simp] theorem improve_nil (held : Option (Find R)) : improve held [] = held := by
  cases held <;> rfl

theorem improve_none_cons (f : Find R) (rest : List (Find R)) :
    improve none (f :: rest) = improve (some f) rest := by
  simp only [improve, Option.map_none, Option.map_some, bestAbove, exceeds, if_true]
  cases bestAbove (some f.effective.raw) rest <;> rfl

theorem improve_some_ne_none (held : Find R) (finds : List (Find R)) :
    improve (some held) finds ≠ none := by
  simp [improve]

theorem improve_none_eq_none_iff {finds : List (Find R)} :
    improve none finds = none ↔ finds = [] := by
  cases finds with
  | nil => simp
  | cons f rest => simp [improve_none_cons, improve_some_ne_none]

section IsFirstBest

variable [LinearOrder R]

omit [Reckoning R]

/-- Whether a build is the first best one of a list: those before it are worse, and those after it
are no better. -/
def IsFirstBest (f : Find R) (builds : List (Find R)) : Prop :=
  ∃ before after, builds = before ++ f :: after ∧
    (∀ g ∈ before, g.effective.raw < f.effective.raw) ∧
    ∀ g ∈ after, g.effective.raw ≤ f.effective.raw

theorem IsFirstBest.raw_le {f g : Find R} {builds : List (Find R)} (h : f.IsFirstBest builds)
    (hg : g ∈ builds) : g.effective.raw ≤ f.effective.raw := by
  obtain ⟨before, after, rfl, hbefore, hafter⟩ := h
  rcases List.mem_append.1 hg with hg | hg
  · exact (hbefore g hg).le
  · rcases List.mem_cons.1 hg with rfl | hg
    · exact le_rfl
    · exact hafter g hg

theorem IsFirstBest.cons {f g : Find R} {builds : List (Find R)} (h : f.IsFirstBest builds)
    (hlt : g.effective.raw < f.effective.raw) : f.IsFirstBest (g :: builds) := by
  obtain ⟨before, after, rfl, hbefore, hafter⟩ := h
  refine ⟨g :: before, after, rfl, ?_, hafter⟩
  intro b hb
  rcases List.mem_cons.1 hb with rfl | hb
  · exact hlt
  · exact hbefore b hb

/-- A build that does not exceed its predecessor changes nothing. -/
theorem IsFirstBest.cons_cons {held f g : Find R} {builds : List (Find R)}
    (h : f.IsFirstBest (held :: builds)) (hle : g.effective.raw ≤ held.effective.raw) :
    f.IsFirstBest (held :: g :: builds) := by
  have hg : g.effective.raw ≤ f.effective.raw := hle.trans (h.raw_le List.mem_cons_self)
  obtain ⟨before, after, heq, hbefore, hafter⟩ := h
  cases before with
  | nil =>
      obtain ⟨rfl, rfl⟩ := List.cons.inj heq
      refine ⟨[], g :: builds, rfl, by simp, ?_⟩
      intro b hb
      rcases List.mem_cons.1 hb with rfl | hb
      · exact hg
      · exact hafter b hb
  | cons b before =>
      obtain ⟨rfl, rfl⟩ := List.cons.inj heq
      have hheld : held.effective.raw < f.effective.raw := hbefore held List.mem_cons_self
      have hrest : f.IsFirstBest (before ++ f :: after) :=
        ⟨before, after, rfl, fun b hb => hbefore b (List.mem_cons_of_mem held hb), hafter⟩
      exact (hrest.cons (hle.trans_lt hheld)).cons hheld

end IsFirstBest

variable [LinearOrder R] [LinearReckoning R]

theorem improve_some_cons (held f : Find R) (rest : List (Find R)) :
    improve (some held) (f :: rest) =
      if held.effective.raw < f.effective.raw then improve (some f) rest
      else improve (some held) rest := by
  simp only [improve, Option.map_some, bestAbove, exceeds, Reckoning.less_iff]
  split
  · cases bestAbove (some f.effective.raw) rest <;> rfl
  · rfl

theorem improve_append (held : Option (Find R)) (first second : List (Find R)) :
    improve held (first ++ second) = improve (improve held first) second := by
  induction first generalizing held with
  | nil => simp
  | cons f rest ih =>
      cases held with
      | none =>
          rw [List.cons_append, improve_none_cons, improve_none_cons, ih]
      | some g =>
          rw [List.cons_append, improve_some_cons, improve_some_cons]
          split <;> exact ih _

theorem improve_of_le {held : Find R} {finds : List (Find R)}
    (h : ∀ f ∈ finds, f.effective.raw ≤ held.effective.raw) :
    improve (some held) finds = some held := by
  induction finds with
  | nil => simp
  | cons f rest ih =>
      rw [improve_some_cons, if_neg (not_lt.2 (h f (by simp)))]
      exact ih fun g hg => h g (List.mem_cons_of_mem f hg)

theorem isFirstBest_of_improve_some {held f : Find R} {finds : List (Find R)}
    (h : improve (some held) finds = some f) : f.IsFirstBest (held :: finds) := by
  induction finds generalizing held with
  | nil =>
      have hf : held = f := by simpa using h
      exact ⟨[], [], by simp [hf], by simp, by simp⟩
  | cons g rest ih =>
      rw [improve_some_cons] at h
      split at h
      next hlt =>
        have hrest : f.IsFirstBest (g :: rest) := ih h
        exact hrest.cons (hlt.trans_le (hrest.raw_le List.mem_cons_self))
      next hle =>
        have hrest : f.IsFirstBest (held :: rest) := ih h
        exact hrest.cons_cons (not_lt.1 hle)

theorem isFirstBest_of_improve_none {f : Find R} {finds : List (Find R)}
    (h : improve none finds = some f) : f.IsFirstBest finds := by
  cases finds with
  | nil => simp at h
  | cons g rest => exact isFirstBest_of_improve_some (improve_none_cons g rest ▸ h)

theorem bar_lt_of_bestAbove {bar : R} {f : Find R} {finds : List (Find R)}
    (h : bestAbove (some bar) finds = some f) : bar < f.effective.raw := by
  induction finds generalizing bar with
  | nil => simp [bestAbove] at h
  | cons g rest ih =>
      simp only [bestAbove, exceeds, Reckoning.less_iff] at h
      split at h
      next hlt =>
        cases hrest : bestAbove (some g.effective.raw) rest with
        | none =>
            rw [hrest] at h
            simp only [Option.getD_none, Option.some.injEq] at h
            exact h ▸ hlt
        | some best =>
            rw [hrest] at h
            simp only [Option.getD_some, Option.some.injEq] at h
            subst h
            exact hlt.trans (ih hrest)
      next => exact ih h

end Find

namespace Candidate

variable [LinearOrder R] [LinearReckoning R]

theorem retainAbove_cons (bar : R) (w : Candidate R) (rest : List (Candidate R)) :
    retainAbove bar (w :: rest) =
      if bar < w.ceiling then w :: retainAbove bar rest else retainAbove bar rest := by
  simp only [retainAbove, List.filter_cons, Reckoning.less_iff]

/-- Of candidates by descending ceiling, those above a bar stand in front. -/
theorem eq_retainAbove_append {candidates : List (Candidate R)}
    (hsorted : candidates.Pairwise fun a b => b.ceiling ≤ a.ceiling) (bar : R) :
    ∃ cut, candidates = retainAbove bar candidates ++ cut ∧ ∀ w ∈ cut, w.ceiling ≤ bar := by
  induction candidates with
  | nil => exact ⟨[], rfl, by simp⟩
  | cons w rest ih =>
      obtain ⟨hw, hrest⟩ := List.pairwise_cons.1 hsorted
      by_cases hbar : bar < w.ceiling
      · obtain ⟨cut, heq, hcut⟩ := ih hrest
        refine ⟨cut, ?_, hcut⟩
        rw [retainAbove_cons, if_pos hbar, List.cons_append, ← heq]
      · -- every later ceiling is at most this one, so nothing is retained
        have hcut : ∀ v ∈ w :: rest, v.ceiling ≤ bar := by
          intro v hv
          rcases List.mem_cons.1 hv with rfl | hv
          · exact not_lt.1 hbar
          · exact (hw v hv).trans (not_lt.1 hbar)
        refine ⟨w :: rest, ?_, hcut⟩
        have hnone : retainAbove bar (w :: rest) = [] :=
          List.filter_eq_nil_iff.2 fun v hv hless =>
            (Reckoning.less_iff.1 hless).not_ge (hcut v hv)
        rw [hnone, List.nil_append]

end Candidate

namespace Setting

/-- The builds of a pairing that meet the request. -/
def builds (x : Setting R) (set : ArmourSet) (w : Candidate R) : List (Find R) :=
  match x.finds set w with
  | .ok finds => finds
  | .error _ => []

/-- The builds of all pairings: sets first, then candidates, then packings. -/
def allBuilds (x : Setting R) (sets : List ArmourSet) (candidates : List (Candidate R)) :
    List (Find R) :=
  sets.flatMap fun set => candidates.flatMap (x.builds set)

/-- Whether a packing of the weapon's slots is emitted for a pairing and passes all checks. -/
structure Passes (x : Setting R) (set : ArmourSet) (w : Candidate R) (p : Packing) : Prop where
  withinCutoffs : x.requirements.withinCutoffs (pairedPieces set w) = true
  emitted : ∃ packings, Packing.all x.skills x.decorations w.stats.slots
    (x.pairedLevels set w) = .ok packings ∧ p ∈ packings
  met : x.requirements.metBy (x.requirements.restrictLevels
    (SkillLevels.grant x.skills p.levels (pairedPieces set w))) = true

theorem builds_of_finds {x : Setting R} {set : ArmourSet} {w : Candidate R} {finds : List (Find R)}
    (h : x.finds set w = .ok finds) : x.builds set w = finds := by
  rw [builds, h]

theorem isSome_of_find? {x : Setting R} {set : ArmourSet} {w : Candidate R} {p : Packing}
    {found : Option (Find R)} (h : x.find? set w p = .ok found) :
    found.isSome = x.requirements.metBy (x.requirements.restrictLevels
      (SkillLevels.grant x.skills p.levels (pairedPieces set w))) := by
  unfold find? at h
  dsimp only at h
  split at h
  next hmet =>
    obtain ⟨effective, -, hsome⟩ := SuccessfulRun.bind_eq_ok_iff.1 h
    cases hsome
    exact hmet.symm
  next hmet =>
    cases h
    exact (Bool.eq_false_iff.2 hmet).symm

theorem finds_eq_ok_iff {x : Setting R} {set : ArmourSet} {w : Candidate R}
    {finds : List (Find R)} (hwithin : x.requirements.withinCutoffs (pairedPieces set w) = true) :
    x.finds set w = .ok finds ↔ ∃ packings results,
      Packing.all x.skills x.decorations w.stats.slots (x.pairedLevels set w) = .ok packings ∧
        List.Forall₂ (fun p found => x.find? set w p = .ok found) packings results ∧
        finds = results.filterMap id := by
  unfold Setting.finds
  rw [if_pos hwithin, SuccessfulRun.bind_eq_ok_iff]
  constructor
  · rintro ⟨packings, hpackings, hrest⟩
    obtain ⟨results, hresults, heq⟩ := SuccessfulRun.bind_eq_ok_iff.1 hrest
    exact ⟨packings, results, hpackings, SuccessfulRun.mapM_eq_ok_iff.1 hresults,
      (Except.ok.inj heq).symm⟩
  · rintro ⟨packings, results, hpackings, hresults, rfl⟩
    exact ⟨packings, hpackings, SuccessfulRun.bind_eq_ok_iff.2
      ⟨results, SuccessfulRun.mapM_eq_ok_iff.2 hresults, rfl⟩⟩

/-- A pairing without a fault has a build exactly if one of its packings passes. -/
theorem finds_eq_nil_iff {x : Setting R} {set : ArmourSet} {w : Candidate R}
    {finds : List (Find R)} (h : x.finds set w = .ok finds) :
    finds = [] ↔ ∀ p, ¬ x.Passes set w p := by
  by_cases hwithin : x.requirements.withinCutoffs (pairedPieces set w) = true
  · obtain ⟨packings, results, hpackings, hresults, rfl⟩ := (finds_eq_ok_iff hwithin).1 h
    rw [List.filterMap_eq_nil_iff]
    constructor
    · intro hnone p hp
      obtain ⟨emitted, hemitted, hmem⟩ := hp.emitted
      cases hpackings.symm.trans hemitted
      obtain ⟨found, hfound, hfind⟩ := SuccessfulRun.exists_result hresults hmem
      have hsome := isSome_of_find? hfind
      rw [hp.met, show found = none from hnone found hfound] at hsome
      cases hsome
    · intro hpasses found hfound
      obtain ⟨p, hmem, hfind⟩ := SuccessfulRun.exists_item hresults hfound
      cases found with
      | none => rfl
      | some f =>
          have hmet := (isSome_of_find? hfind).symm
          exact absurd ⟨hwithin, ⟨packings, hpackings, hmem⟩, hmet⟩ (hpasses p)
  · have hfinds : finds = [] := by
      unfold Setting.finds at h
      rw [if_neg hwithin] at h
      exact (Except.ok.inj h).symm
    exact ⟨fun _ p hp => hwithin hp.withinCutoffs, fun _ => hfinds⟩

end Setting

namespace Hunt

theorem best_report (h : Hunt R) (finds : List (Find R)) :
    (h.report finds).held.best = Find.improve h.held.best finds := by
  have hbar : h.held.bar none = h.held.best.map (·.effective.raw) := by
    unfold Held.bar
    cases h.held.best <;> rfl
  unfold report Find.improve
  rw [hbar]
  cases Find.bestAbove (h.held.best.map (·.effective.raw)) finds <;> rfl

variable [LinearOrder R]

/-- The candidates of a search in progress are those of the whole list without some at its end,
whose ceilings the held build has reached. -/
def CutFrom (h : Hunt R) (all : List (Candidate R)) : Prop :=
  ∃ cut, all = h.candidates ++ cut ∧
    ∀ w ∈ cut, ∃ f, h.held.best = some f ∧ w.ceiling ≤ f.effective.raw

omit [Reckoning R] in
theorem CutFrom.drop_of_lt {h : Hunt R} {all : List (Candidate R)} (hcut : h.CutFrom all)
    {position : Nat} (hposition : position < h.candidates.length) :
    all.drop position = h.candidates[position] :: all.drop (position + 1) := by
  obtain ⟨cut, hall, -⟩ := hcut
  have hlength : position < all.length := by
    rw [hall, List.length_append]
    omega
  rw [List.drop_eq_getElem_cons hlength]
  simp [hall, List.getElem_append_left hposition]

omit [Reckoning R] in
theorem CutFrom.ceiling_of_mem_drop {h : Hunt R} {all : List (Candidate R)}
    (hcut : h.CutFrom all) {position : Nat} (hposition : ¬ position < h.candidates.length)
    {w : Candidate R} (hw : w ∈ all.drop position) :
    ∃ f, h.held.best = some f ∧ w.ceiling ≤ f.effective.raw := by
  obtain ⟨cut, hall, hceiling⟩ := hcut
  rw [hall, List.drop_append, List.drop_eq_nil_of_le (not_lt.1 hposition), List.nil_append] at hw
  exact hceiling w (List.mem_of_mem_drop hw)

variable [LinearReckoning R]

theorem CutFrom.report {h : Hunt R} {all : List (Candidate R)} (hcut : h.CutFrom all)
    (hsorted : all.Pairwise fun a b => b.ceiling ≤ a.ceiling) (finds : List (Find R)) :
    (h.report finds).CutFrom all := by
  obtain ⟨cut, hall, hceiling⟩ := hcut
  unfold Hunt.report
  cases hfound : Find.bestAbove (h.held.bar none) finds with
  | none => exact ⟨cut, hall, hceiling⟩
  | some f =>
      have hprefix : h.candidates.Pairwise fun a b => b.ceiling ≤ a.ceiling := by
        rw [hall] at hsorted
        exact (List.pairwise_append.1 hsorted).1
      obtain ⟨further, heq, hfurther⟩ :=
        Candidate.eq_retainAbove_append hprefix f.effective.raw
      refine ⟨further ++ cut, ?_, ?_⟩
      · rw [← List.append_assoc, ← heq]
        exact hall
      · intro w hw
        refine ⟨f, rfl, ?_⟩
        rcases List.mem_append.1 hw with hw | hw
        · exact hfurther w hw
        · obtain ⟨g, hg, hle⟩ := hceiling w hw
          have hbar : h.held.bar none = some g.effective.raw := by rw [Held.bar, hg]
          rw [hbar] at hfound
          exact hle.trans (Find.bar_lt_of_bestAbove hfound).le

theorem improve_of_cut {held : Option (Find R)} {cut : List (Candidate R)} {finds : List (Find R)}
    (hceiling : ∀ w ∈ cut, ∃ f, held = some f ∧ w.ceiling ≤ f.effective.raw)
    (hbound : ∀ f ∈ finds, ∃ w ∈ cut, f.effective.raw ≤ w.ceiling) :
    Find.improve held finds = held := by
  cases held with
  | none =>
      have hnil : finds = [] := by
        refine List.eq_nil_iff_forall_not_mem.2 fun f hf => ?_
        obtain ⟨w, hw, -⟩ := hbound f hf
        obtain ⟨g, hg, -⟩ := hceiling w hw
        cases hg
      rw [hnil, Find.improve_nil]
  | some held =>
      refine Find.improve_of_le fun f hf => ?_
      obtain ⟨w, hw, hle⟩ := hbound f hf
      obtain ⟨g, hg, hreached⟩ := hceiling w hw
      cases hg
      exact hle.trans hreached

end Hunt

namespace Setting

/-- Without a fault in any pairing, the walk along the candidates of a set comes to its end. -/
theorem huntFrom_succeeds {x : Setting R} {set : ArmourSet} (position : Nat) {h : Hunt R}
    (hfinds : ∀ w ∈ h.candidates, ∃ finds, x.finds set w = .ok finds) :
    ∃ next, x.huntFrom set position h = .ok next ∧ next.candidates ⊆ h.candidates := by
  fun_induction x.huntFrom set position h with
  | case1 position h hposition ih =>
      obtain ⟨finds, hrun⟩ := hfinds h.candidates[position] (List.getElem_mem hposition)
      have hsub : (h.report finds).candidates ⊆ h.candidates := by
        unfold Hunt.report
        cases Find.bestAbove (h.held.bar none) finds with
        | none => exact fun _ hw => hw
        | some f => exact fun w hw => (List.mem_filter.1 hw).1
      obtain ⟨next, hnext, hnextSub⟩ := ih finds fun w hw => hfinds w (hsub hw)
      exact ⟨next, SuccessfulRun.bind_eq_ok_iff.2 ⟨finds, hrun, hnext⟩,
        fun w hw => hsub (hnextSub hw)⟩
  | case2 position h hposition => exact ⟨h, rfl, fun _ hw => hw⟩

theorem hunt_succeeds {x : Setting R} {sets : List ArmourSet} {h : Hunt R}
    (hfinds : ∀ set ∈ sets, ∀ w ∈ h.candidates, ∃ finds, x.finds set w = .ok finds) :
    ∃ last, x.hunt sets h = .ok last := by
  induction sets generalizing h with
  | nil => exact ⟨h, rfl⟩
  | cons set rest ih =>
      obtain ⟨next, hnext, hsub⟩ := huntFrom_succeeds 0 (hfinds set (by simp))
      by_cases hempty : next.candidates.isEmpty
      · exact ⟨next, SuccessfulRun.bind_eq_ok_iff.2 ⟨next, hnext, if_pos hempty⟩⟩
      · obtain ⟨last, hlast⟩ := ih fun s hs w hw =>
          hfinds s (List.mem_cons_of_mem set hs) w (hsub hw)
        exact ⟨last, SuccessfulRun.bind_eq_ok_iff.2
          ⟨next, hnext, (if_neg hempty).trans hlast⟩⟩

variable [LinearOrder R] [LinearReckoning R]

/-- What a search holds after it has walked along the candidates of a set from a position on; as
long as it holds nothing, it looks at every pairing. -/
theorem best_huntFrom {x : Setting R} {set : ArmourSet} {all : List (Candidate R)}
    (hsorted : all.Pairwise fun a b => b.ceiling ≤ a.ceiling)
    (hbound : ∀ w ∈ all, ∀ f ∈ x.builds set w, f.effective.raw ≤ w.ceiling)
    {position : Nat} {h next : Hunt R} (hcut : h.CutFrom all)
    (hrun : x.huntFrom set position h = .ok next) :
    next.CutFrom all ∧
      next.held.best =
        Find.improve h.held.best ((all.drop position).flatMap (x.builds set)) ∧
      (next.held.best = none →
        ∀ w ∈ all.drop position, ∃ finds, x.finds set w = .ok finds) := by
  fun_induction x.huntFrom set position h with
  | case1 position h hposition ih =>
      obtain ⟨finds, hfinds, hrest⟩ := SuccessfulRun.bind_eq_ok_iff.1 hrun
      obtain ⟨hnext, hbest, hlooked⟩ := ih finds (hcut.report hsorted finds) hrest
      -- nothing has been cut up to this position, so it means the same in the whole list
      rw [hcut.drop_of_lt hposition]
      refine ⟨hnext, ?_, fun hnone w hw => ?_⟩
      · rw [hbest, Hunt.best_report, List.flatMap_cons, builds_of_finds hfinds,
          Find.improve_append]
      · rcases List.mem_cons.1 hw with rfl | hw
        · exact ⟨finds, hfinds⟩
        · exact hlooked hnone w hw
  | case2 position h hposition =>
      cases hrun
      have hceiling : ∀ w ∈ all.drop position, ∃ f, next.held.best = some f ∧
          w.ceiling ≤ f.effective.raw := fun w hw => hcut.ceiling_of_mem_drop hposition hw
      refine ⟨hcut, ?_, fun hnone w hw => ?_⟩
      · rw [Hunt.improve_of_cut hceiling]
        intro f hf
        obtain ⟨w, hw, hf⟩ := List.mem_flatMap.1 hf
        exact ⟨w, hw, hbound w (List.mem_of_mem_drop hw) f hf⟩
      · obtain ⟨f, hf, -⟩ := hceiling w hw
        rw [hnone] at hf
        cases hf

theorem best_hunt {x : Setting R} {sets : List ArmourSet} {all : List (Candidate R)}
    (hsorted : all.Pairwise fun a b => b.ceiling ≤ a.ceiling)
    (hbound : ∀ set ∈ sets, ∀ w ∈ all, ∀ f ∈ x.builds set w, f.effective.raw ≤ w.ceiling)
    {h last : Hunt R} (hcut : h.CutFrom all) (hrun : x.hunt sets h = .ok last) :
    last.held.best = Find.improve h.held.best (x.allBuilds sets all) ∧
      (last.held.best = none →
        ∀ set ∈ sets, ∀ w ∈ all, ∃ finds, x.finds set w = .ok finds) := by
  induction sets generalizing h with
  | nil =>
      cases hrun
      simp [allBuilds]
  | cons set rest ih =>
      obtain ⟨next, hnext, hrest⟩ := SuccessfulRun.bind_eq_ok_iff.1 hrun
      obtain ⟨hcutNext, hbest, hlooked⟩ :=
        best_huntFrom hsorted (hbound set (by simp)) hcut hnext
      rw [List.drop_zero] at hbest hlooked
      have hboundRest := fun s hs => hbound s (List.mem_cons_of_mem set hs)
      have hsplit : x.allBuilds (set :: rest) all =
          all.flatMap (x.builds set) ++ x.allBuilds rest all := List.flatMap_cons
      rw [hsplit, Find.improve_append, ← hbest]
      split at hrest
      next hempty =>
        -- every candidate has been cut, so the sets left out would not have changed anything
        cases hrest
        obtain ⟨cut, hall, hceiling⟩ := hcutNext
        rw [List.isEmpty_iff.1 hempty, List.nil_append] at hall
        subst hall
        refine ⟨?_, fun hnone s _ w hw => ?_⟩
        · rw [Hunt.improve_of_cut hceiling]
          intro f hf
          obtain ⟨s, hs, hf⟩ := List.mem_flatMap.1 hf
          obtain ⟨w, hw, hf⟩ := List.mem_flatMap.1 hf
          exact ⟨w, hw, hboundRest s hs w hw f hf⟩
        · obtain ⟨f, hf, -⟩ := hceiling w hw
          rw [hnone] at hf
          cases hf
      next =>
        obtain ⟨hlast, hlookedRest⟩ := ih hboundRest hcutNext hrest
        refine ⟨hlast, fun hnone s hs => ?_⟩
        rcases List.mem_cons.1 hs with rfl | hs
        · refine hlooked ?_
          cases hheld : next.held.best with
          | none => rfl
          | some f =>
              rw [hheld, hnone] at hlast
              exact absurd hlast.symm (Find.improve_some_ne_none f _)
        · exact hlookedRest hnone s hs

/-- The search in order holds the first best one of all builds of all pairings, and nothing exactly
if no packing of any pairing passes.  It comes to its end unless a pairing has a fault. -/
theorem searchInOrder_holds_first_best (x : Setting R) {candidates : List (Candidate R)}
    {sets : List ArmourSet}
    (hsorted : candidates.Pairwise fun a b => b.ceiling ≤ a.ceiling)
    (hbound : ∀ set ∈ sets, ∀ w ∈ candidates, ∀ f ∈ x.builds set w,
      f.effective.raw ≤ w.ceiling) :
    (∀ held, x.searchInOrder candidates sets = .ok held →
      (held.best = none ↔ ∀ set ∈ sets, ∀ w ∈ candidates, ∀ p, ¬ x.Passes set w p) ∧
      ∀ f, held.best = some f → f.IsFirstBest (x.allBuilds sets candidates)) ∧
    ((∀ set ∈ sets, ∀ w ∈ candidates, ∃ finds, x.finds set w = .ok finds) →
      ∃ held, x.searchInOrder candidates sets = .ok held) := by
  constructor
  · intro held hrun
    obtain ⟨last, hlast, hheld⟩ := SuccessfulRun.bind_eq_ok_iff.1 hrun
    cases hheld
    have hcut : Hunt.CutFrom ⟨candidates, .nothing⟩ candidates :=
      ⟨[], (List.append_nil _).symm, by simp⟩
    obtain ⟨hbest, hlooked⟩ := best_hunt hsorted hbound hcut hlast
    refine ⟨⟨fun hnone set hset w hw => ?_, fun hpasses => ?_⟩, fun f hf => ?_⟩
    · obtain ⟨finds, hfinds⟩ := hlooked hnone set hset w hw
      refine (finds_eq_nil_iff hfinds).1 ?_
      have hnil := Find.improve_none_eq_none_iff.1 (hbest.symm.trans hnone)
      have hpairing := List.flatMap_eq_nil_iff.1 (List.flatMap_eq_nil_iff.1 hnil set hset) w hw
      rwa [builds_of_finds hfinds] at hpairing
    · rw [hbest]
      refine Find.improve_none_eq_none_iff.2 (List.flatMap_eq_nil_iff.2 fun set hset => ?_)
      refine List.flatMap_eq_nil_iff.2 fun w hw => ?_
      unfold builds
      cases hfinds : x.finds set w with
      | ok finds => exact (finds_eq_nil_iff hfinds).2 (hpasses set hset w hw)
      | error fault => rfl
    · exact Find.isFirstBest_of_improve_none (hbest.symm.trans hf)
  · intro hfinds
    obtain ⟨last, hlast⟩ := hunt_succeeds (h := ⟨candidates, .nothing⟩) hfinds
    exact ⟨last.held, SuccessfulRun.bind_eq_ok_iff.2 ⟨last, hlast, rfl⟩⟩

def freeSetting : Setting Rat := ⟨default, default, ⟨0, 1⟩, []⟩

/-- Candidates without skills, two of which tie for the highest attack. -/
def plainCandidates : List (Candidate Rat) :=
  [("tall", 90, 110), ("first", 100, 100), ("second", 100, 100), ("low", 80, 95)].map
    fun (id, raw, ceiling) =>
      { weapon := ⟨{ (default : Weapon) with id }, default⟩
        stats := { (default : WeaponStats) with raw }
        ceiling }

def bareSet : ArmourSet := ⟨.bare, [], ∅⟩

theorem searchInOrder_plainCandidates :
    (plainCandidates.Pairwise fun a b => b.ceiling ≤ a.ceiling) ∧
      (∀ set ∈ [bareSet], ∀ w ∈ plainCandidates, ∀ f ∈ freeSetting.builds set w,
        f.effective.raw ≤ w.ceiling) ∧
      ∃ held f, freeSetting.searchInOrder plainCandidates [bareSet] = .ok held ∧
        held.best = some f ∧ f.weapon.weapon.id = "first" ∧
        f.IsFirstBest (freeSetting.allBuilds [bareSet] plainCandidates) := by
  have hsorted : plainCandidates.Pairwise fun a b => b.ceiling ≤ a.ceiling := by decide +kernel
  have hbound : ∀ set ∈ [bareSet], ∀ w ∈ plainCandidates, ∀ f ∈ freeSetting.builds set w,
      f.effective.raw ≤ w.ceiling := by decide +kernel
  have hrun : ((freeSetting.searchInOrder plainCandidates [bareSet]).toOption.bind fun held =>
      held.best.map (·.weapon.weapon.id)) = some "first" := by decide +kernel
  obtain ⟨held, hheld, hbest⟩ := Option.bind_eq_some_iff.1 hrun
  obtain ⟨f, hf, hid⟩ := Option.map_eq_some_iff.1 hbest
  have hheld := SuccessfulRun.toOption_eq_some_iff.1 hheld
  have hfirst := ((searchInOrder_holds_first_best freeSetting hsorted hbound).1 held hheld).2
  exact ⟨hsorted, hbound, held, f, hheld, hf, hid, hfirst f hf⟩

end Setting

end Loadout
