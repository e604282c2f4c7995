import Loadout.Proofs.SharedBar

/-!
# What a search holds in the end

In whatever way a search goes about its pairings, it holds one of their best builds in the end: in
order the first one, in batches one of those above the floor.  Every run of visits that overlap is a
run of a crew, so what holds of all crews holds of the search in batches.
-/

namespace Loadout

variable {R : Type} [Reckoning R] [LinearOrder R] [LinearReckoning R]
variable {x : Setting R} {sets : List ArmourSet} {all : List (Candidate R)}

namespace Crew

section Overlapping

omit [LinearReckoning R] in
/-- A step of visits that overlap is a step of the crew, which reads the same bar. -/
theorem exists_step_of_shift {c : Crew R} {s s' : Shift R} (h : c.Accounted x sets all)
    (hrounds : c.rounds = s.rounds) (hheld : c.held = s.held)
    (hstep : Shift.Step x (some Setting.sharedFloor) s s') :
    ∃ c', Step x c c' ∧ c'.rounds = s'.rounds ∧ c'.held = s'.held ∧ c'.ahead = c.ahead ∧
      c'.candidates = c.candidates := by
  cases hstep with
  | look before after set w rest held =>
      have hbar : held.bar (some Setting.sharedFloor) = some c.shared := by
        rw [← h.shared, hheld]
      rw [hbar]
      exact ⟨_, .look before after set w rest c hrounds, rfl, hheld, rfl, rfl⟩
  | visit before after set w rest held bar v hv =>
      exact ⟨_, .visit before after set w rest bar v c hrounds hv, rfl, hheld, rfl, rfl⟩
  | handIn before after set rest held v =>
      exact ⟨_, .handIn before after set rest v c hrounds, rfl, by rw [hheld], rfl, rfl⟩

theorem exists_leads_of_shift {c : Crew R} {s s' : Shift R}
    (hbound : ∀ set ∈ sets, ∀ w ∈ all, ∀ f ∈ x.builds set w, f.effective.raw ≤ w.ceiling)
    (h : c.Accounted x sets all) (hrounds : c.rounds = s.rounds) (hheld : c.held = s.held)
    (hleads : Shift.Leads x (some Setting.sharedFloor) s s') :
    ∃ c', Leads x c c' ∧ c'.rounds = s'.rounds ∧ c'.held = s'.held ∧ c'.ahead = c.ahead ∧
      c'.candidates = c.candidates := by
  induction hleads with
  | refl => exact ⟨c, .refl, hrounds, hheld, rfl, rfl⟩
  | tail _ hstep ih =>
      obtain ⟨c₁, hrun, hrounds₁, hheld₁, hahead₁, hcandidates₁⟩ := ih
      obtain ⟨c₂, hstep₂, hrounds₂, hheld₂, hahead₂, hcandidates₂⟩ :=
        exists_step_of_shift (h.leads hbound hrun) hrounds₁ hheld₁ hstep
      exact ⟨c₂, hrun.tail hstep₂, hrounds₂, hheld₂, hahead₂.trans hahead₁,
        hcandidates₂.trans hcandidates₁⟩

omit [LinearOrder R] [LinearReckoning R] in
theorem shift_leads_of_done {floor : Option R} {s s' : Shift R} (hdone : ∀ r ∈ s.rounds, r.Done)
    (hleads : Shift.Leads x floor s s') : s' = s := by
  obtain rfl | ⟨_, hstep, -⟩ := hleads.cases_head
  · rfl
  · cases hstep with
    | look before after =>
        cases (hdone _ (List.mem_append_right before List.mem_cons_self)).ahead
    | visit before after =>
        cases (hdone _ (List.mem_append_right before List.mem_cons_self)).ahead
    | handIn before after =>
        cases (hdone _ (List.mem_append_right before List.mem_cons_self)).idle

omit [LinearOrder R] [LinearReckoning R] in
/-- Without candidates nothing more is found. -/
theorem eq_of_mayHold_nil {batches : List (List ArmourSet)} {candidates : List (Candidate R)}
    {held last : Held R} (hnone : candidates = []) (h : x.MayHold batches candidates held last) :
    last = held := by
  induction h with
  | done => rfl
  | batch batch rest candidates held next last hleads _ ih =>
      subst hnone
      have hnext : next = held :=
        congrArg Shift.held (shift_leads_of_done (fun r hr => Round.done_of_mem_fresh hr) hleads)
      rw [ih rfl, hnext]

theorem exists_over_of_mayHold {batches : List (List ArmourSet)} {candidates : List (Candidate R)}
    {held last : Held R}
    (hbound : ∀ set ∈ sets, ∀ w ∈ all, ∀ f ∈ x.builds set w, f.effective.raw ≤ w.ceiling)
    (hmay : x.MayHold batches candidates held last) {batch : List ArmourSet} {c : Crew R}
    (h : c.Accounted x sets all) (hbatches : batches = batch :: c.ahead)
    (hcandidates : c.candidates = candidates)
    (hrounds : c.rounds = batch.map (Round.fresh candidates)) (hheld : c.held = held) :
    ∃ c', Leads x c c' ∧ c'.Over ∧ c'.held = last := by
  induction hmay generalizing batch c with
  | done => cases hbatches
  | batch first rest candidates held next last hleads hrest ih =>
      cases hbatches
      obtain ⟨c₁, hrun, hrounds₁, hheld₁, hahead₁, hcandidates₁⟩ :=
        exists_leads_of_shift hbound h hrounds hheld hleads
      have h₁ := h.leads hbound hrun
      have hdone : ∀ r ∈ c₁.rounds, r.Done := by
        rw [hrounds₁]
        exact fun r hr => Round.done_of_mem_fresh hr
      have hleft : c₁.left = Candidate.retainAbove
          ((next.bar (some Setting.sharedFloor)).getD Setting.sharedFloor) candidates := by
        have hbar : next.bar (some Setting.sharedFloor) = some c₁.shared :=
          Eq.trans (congrArg _ hheld₁.symm) h₁.shared
        rw [left, hcandidates₁, hcandidates, hbar]
        rfl
      rw [← hleft] at hrest ih
      by_cases hnone : c₁.left = []
      · have hlast := eq_of_mayHold_nil hnone hrest
        exact ⟨c₁, hrun, ⟨hdone, .inr hnone⟩, hheld₁.trans hlast.symm⟩
      · cases hahead : c.ahead with
        | nil =>
            rw [hahead] at hrest
            cases hrest
            exact ⟨c₁, hrun, ⟨hdone, .inl (hahead₁.trans hahead)⟩, hheld₁⟩
        | cons batch later =>
            have hstep : Step x c₁ _ :=
              .nextBatch batch later c₁ (hahead₁.trans hahead) hdone hnone
            obtain ⟨c', hrun', hover, hheld'⟩ := ih (h₁.step hbound hstep) hahead rfl rfl hheld₁
            exact ⟨c', (hrun.tail hstep).trans hrun', hover, hheld'⟩

/-- Whatever a search in batches may hold, a crew may hold in the end. -/
theorem exists_over_of_mayEnd {o : SearchOptions} {candidates : List (Candidate R)}
    {held : Held R}
    (hbound : ∀ set ∈ sets, ∀ w ∈ candidates, ∀ f ∈ x.builds set w, f.effective.raw ≤ w.ceiling)
    (ho : o.parallel = true) (hend : x.MayEnd o candidates sets held) :
    ∃ c, Leads x (start o.batches candidates sets) c ∧ c.Over ∧ c.held = held := by
  cases hend with
  | inOrder hoff => simp [ho] at hoff
  | inBatches _ hmay =>
      have haccount := accounted_start o.batches hbound
      cases hall : inBatches (max o.batches 1) sets with
      | nil =>
          rw [hall] at hmay
          cases hmay
          exact ⟨_, .refl, ⟨by simp [start, hall], .inl (by simp [start, hall])⟩, rfl⟩
      | cons batch rest =>
          rw [hall] at hmay
          have hahead : batch :: rest = batch :: (start o.batches candidates sets).ahead := by
            simp [start, hall]
          have hrounds : (start o.batches candidates sets).rounds =
              batch.map (Round.fresh candidates) := by simp [start, hall]
          exact exists_over_of_mayHold hbound hmay haccount hahead rfl hrounds rfl

end Overlapping

/-- What a search holds when it has ended. -/
theorem best_of_over_start {batches : Nat} {candidates : List (Candidate R)}
    (hbound : ∀ set ∈ sets, ∀ w ∈ candidates, ∀ f ∈ x.builds set w, f.effective.raw ≤ w.ceiling)
    {c : Crew R} (hleads : Leads x (start batches candidates sets) c) (hover : c.Over) :
    (∀ f, c.held.best = some f → Setting.sharedFloor < f.effective.raw ∧
      f ∈ x.allBuilds sets candidates ∧
      ∀ g ∈ x.allBuilds sets candidates, g.effective.raw ≤ f.effective.raw) ∧
    (c.held.best = none ↔
      ∀ g ∈ x.allBuilds sets candidates, g.effective.raw ≤ Setting.sharedFloor) := by
  have haccount := (accounted_start batches hbound).leads hbound hleads
  have hmost := haccount.raw_le_of_over hbound hover
  have hshared := haccount.shared
  unfold Held.bar at hshared
  cases hbest : c.held.best with
  | none =>
      rw [hbest] at hshared
      rw [← Option.some.inj hshared] at hmost
      exact ⟨fun _ hf => absurd hf (by simp), fun _ => hmost, fun _ => rfl⟩
  | some f =>
      rw [hbest] at hshared
      rw [← Option.some.inj hshared] at hmost
      obtain ⟨hfloor, hmem⟩ := haccount.best f hbest
      refine ⟨fun g hg => ?_, fun hnone => absurd hnone (by simp), fun hnone => ?_⟩
      · cases hg
        exact ⟨hfloor, hmem, hmost⟩
      · exact absurd (hnone f hmem) (not_le.2 hfloor)

/-- However the workers' steps interleave, a search in batches ends, and holds a best build of all
pairings then if one exceeds the floor, and nothing otherwise.  It only gets stuck before its end
if a pairing has a fault. -/
theorem ends_with_best (x : Setting R) (batches : Nat) {candidates : List (Candidate R)}
    {sets : List ArmourSet}
    (hbound : ∀ set ∈ sets, ∀ w ∈ candidates, ∀ f ∈ x.builds set w,
      f.effective.raw ≤ w.ceiling) :
    (∀ c, Leads x (start batches candidates sets) c → c.Over →
      (∀ f, c.held.best = some f → Setting.sharedFloor < f.effective.raw ∧
        f ∈ x.allBuilds sets candidates ∧
        ∀ g ∈ x.allBuilds sets candidates, g.effective.raw ≤ f.effective.raw) ∧
      (c.held.best = none ↔
        ∀ g ∈ x.allBuilds sets candidates, g.effective.raw ≤ Setting.sharedFloor)) ∧
    (∀ run : Nat → Crew R, ∃ n, ¬ Step x (run n) (run (n + 1))) ∧
    ((∀ set ∈ sets, ∀ w ∈ candidates, ∃ finds, x.finds set w = .ok finds) →
      ∀ c, Leads x (start batches candidates sets) c → c.Over ∨ ∃ c', Step x c c') := by
  refine ⟨fun c hleads hover => best_of_over_start hbound hleads hover, exists_not_step x, ?_⟩
  intro hfinds c hleads
  exact over_or_exists_step ((accounted_start batches hbound).leads hbound hleads) hfinds

/-- Two batches of one set each, of which the second one finds nothing better. -/
theorem ends_with_best_plainCandidates :
    (∀ set ∈ [Setting.bareSet, Setting.bareSet], ∀ w ∈ Setting.plainCandidates,
      ∀ f ∈ Setting.freeSetting.builds set w, f.effective.raw ≤ w.ceiling) ∧
      ∃ c f, Leads Setting.freeSetting
          (start 2 Setting.plainCandidates [Setting.bareSet, Setting.bareSet]) c ∧
        c.Over ∧ c.held.best = some f ∧ f.effective.raw = (100 : Rat) ∧
        ∀ g ∈ Setting.freeSetting.allBuilds [Setting.bareSet, Setting.bareSet]
          Setting.plainCandidates, g.effective.raw ≤ f.effective.raw := by
  have hbound : ∀ set ∈ [Setting.bareSet, Setting.bareSet], ∀ w ∈ Setting.plainCandidates,
      ∀ f ∈ Setting.freeSetting.builds set w, f.effective.raw ≤ w.ceiling := by decide +kernel
  have hrun : ((Request.sweep Setting.freeSetting ⟨true, 2⟩ Setting.plainCandidates
      [Setting.bareSet, Setting.bareSet]).toOption.bind fun held =>
        held.best.map (·.effective.raw)) = some 100 := by decide +kernel
  obtain ⟨held, hheld, hbest⟩ := Option.bind_eq_some_iff.1 hrun
  obtain ⟨f, hf, hraw⟩ := Option.map_eq_some_iff.1 hbest
  have hend := Setting.mayEnd_of_sweep (SuccessfulRun.toOption_eq_some_iff.1 hheld)
  obtain ⟨c, hleads, hover, rfl⟩ := exists_over_of_mayEnd hbound rfl hend
  have hmost := ((ends_with_best Setting.freeSetting 2 hbound).1 c hleads hover).1 f hf
  exact ⟨hbound, c, f, hleads, hover, hf, hraw, hmost.2.2⟩

end Crew

namespace Setting

/-- The search in order holds what the list of all builds improves to. -/
theorem best_of_searchInOrder {candidates : List (Candidate R)} {held : Held R}
    (hsorted : candidates.Pairwise fun a b => b.ceiling ≤ a.ceiling)
    (hbound : ∀ set ∈ sets, ∀ w ∈ candidates, ∀ f ∈ x.builds set w, f.effective.raw ≤ w.ceiling)
    (h : x.searchInOrder candidates sets = .ok held) :
    held.best = Find.improve none (x.allBuilds sets candidates) := by
  obtain ⟨last, hlast, hheld⟩ := SuccessfulRun.bind_eq_ok_iff.1 h
  cases hheld
  have hcut : Hunt.CutFrom ⟨candidates, .nothing⟩ candidates :=
    ⟨[], (List.append_nil _).symm, by simp⟩
  exact (best_hunt hsorted hbound hcut hlast).1

/-- In order or in batches, no build of any pairing exceeds the held one. -/
theorem raw_le_of_mayEnd {o : SearchOptions} {candidates : List (Candidate R)} {held : Held R}
    (hsorted : candidates.Pairwise fun a b => b.ceiling ≤ a.ceiling)
    (hbound : ∀ set ∈ sets, ∀ w ∈ candidates, ∀ f ∈ x.builds set w, f.effective.raw ≤ w.ceiling)
    (hend : x.MayEnd o candidates sets held) {f g : Find R} (hf : held.best = some f)
    (hg : g ∈ x.allBuilds sets candidates) : g.effective.raw ≤ f.effective.raw := by
  cases hparallel : o.parallel with
  | false =>
      cases hend with
      | inOrder _ h =>
          have hbest := best_of_searchInOrder hsorted hbound h
          exact (Find.isFirstBest_of_improve_none (hbest.symm.trans hf)).raw_le hg
      | inBatches ho _ => simp [hparallel] at ho
  | true =>
      obtain ⟨c, hleads, hover, rfl⟩ := Crew.exists_over_of_mayEnd hbound hparallel hend
      exact ((Crew.best_of_over_start hbound hleads hover).1 f hf).2.2 g hg

end Setting

end Loadout
