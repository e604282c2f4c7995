import Loadout.Proofs.AssembledSets
import Loadout.Proofs.CatalogueHandles
import Loadout.Proofs.KeptCandidates
import Loadout.Proofs.OverlappingVisits
import Loadout.Reckoning.Exact

/-!
# Reported builds

Whatever a search reports, in order or with visits that overlap, is a build of one of its pairings.
So it comes from a choice of a charm and of decorated pieces, from a fully spent setup of an allowed
weapon and from a packing of that weapon's slots, and it has passed the checks of a pairing.
-/

namespace Loadout

variable {R : Type} [Reckoning R]

theorem Held.best_of_commit {h : Held R} {v : Visit R} {f : Find R}
    (hf : (h.commit v).best = some f) : h.best = some f ∨ v.best = some f := by
  unfold commit at hf
  cases hbest : h.best with
  | none => simpa [hbest] using hf
  | some g =>
      cases hfound : v.best with
      | none => simpa [hbest, hfound] using hf
      | some found =>
          simp only [hbest, hfound] at hf
          split at hf
          · exact .inr hf
          · exact .inl hf

namespace Setting

def Pairs (x : Setting R) (sets : List ArmourSet) (candidates : List (Candidate R)) (f : Find R) :
    Prop :=
  ∃ set ∈ sets, ∃ w ∈ candidates, ∃ finds, x.finds set w = .ok finds ∧ f ∈ finds

/-- Whether nothing is held but a build of a pairing. -/
def HoldsPaired (x : Setting R) (sets : List ArmourSet) (candidates : List (Candidate R))
    (best : Option (Find R)) : Prop :=
  ∀ f, best = some f → x.Pairs sets candidates f

variable {x : Setting R} {sets : List ArmourSet} {candidates : List (Candidate R)}

theorem holdsPaired_none : x.HoldsPaired sets candidates none := by
  intro f hf
  cases hf

theorem mem_of_bestAbove {bar : Option R} {finds : List (Find R)} {f : Find R}
    (h : Find.bestAbove bar finds = some f) : f ∈ finds := by
  induction finds generalizing bar with
  | nil => cases h
  | cons g rest ih =>
      unfold Find.bestAbove at h
      split at h
      next =>
        cases hrest : Find.bestAbove (some g.effective.raw) rest with
        | none =>
            rw [hrest] at h
            cases h
            exact List.mem_cons_self
        | some best =>
            rw [hrest] at h
            cases h
            exact List.mem_cons_of_mem g (ih hrest)
      next => exact List.mem_cons_of_mem g (ih h)

section InOrder

theorem holdsPaired_report {h : Hunt R} {set : ArmourSet} (hset : set ∈ sets) {w : Candidate R}
    (hw : w ∈ candidates) {finds : List (Find R)} (hfinds : x.finds set w = .ok finds)
    (hheld : x.HoldsPaired sets candidates h.held.best) :
    x.HoldsPaired sets candidates (h.report finds).held.best := by
  intro f hf
  unfold Hunt.report at hf
  dsimp only at hf
  split at hf
  next best hbest =>
    cases hf
    exact ⟨set, hset, w, hw, finds, hfinds, mem_of_bestAbove hbest⟩
  next => exact hheld f hf

theorem candidates_report_subset (h : Hunt R) (finds : List (Find R)) :
    (h.report finds).candidates ⊆ h.candidates := by
  intro w hw
  unfold Hunt.report at hw
  dsimp only at hw
  split at hw
  next => exact (List.mem_filter.1 hw).1
  next => exact hw

theorem holdsPaired_huntFrom {set : ArmourSet} (hset : set ∈ sets) {position : Nat}
    {h next : Hunt R} (hsubset : h.candidates ⊆ candidates)
    (hheld : x.HoldsPaired sets candidates h.held.best)
    (hrun : x.huntFrom set position h = .ok next) :
    next.candidates ⊆ candidates ∧ x.HoldsPaired sets candidates next.held.best := by
  fun_induction x.huntFrom set position h with
  | case1 position h hposition ih =>
      obtain ⟨finds, hfinds, hrest⟩ := SuccessfulRun.bind_eq_ok_iff.1 hrun
      have hw : h.candidates[position] ∈ candidates := hsubset (List.getElem_mem hposition)
      have hcut : (h.report finds).candidates ⊆ candidates :=
        List.Subset.trans (candidates_report_subset h finds) hsubset
      exact ih finds hcut (holdsPaired_report hset hw hfinds hheld) hrest
  | case2 position h hposition =>
      cases hrun
      exact ⟨hsubset, hheld⟩

theorem holdsPaired_hunt {rest : List ArmourSet} (hrest : rest ⊆ sets) {h last : Hunt R}
    (hsubset : h.candidates ⊆ candidates) (hheld : x.HoldsPaired sets candidates h.held.best)
    (hrun : x.hunt rest h = .ok last) : x.HoldsPaired sets candidates last.held.best := by
  induction rest generalizing h with
  | nil =>
      cases hrun
      exact hheld
  | cons set rest ih =>
      obtain ⟨next, hnext, hrun⟩ := SuccessfulRun.bind_eq_ok_iff.1 hrun
      obtain ⟨hcut, hpaired⟩ := holdsPaired_huntFrom (hrest (by simp)) hsubset hheld hnext
      split at hrun
      next =>
        cases hrun
        exact hpaired
      next => exact ih (fun s hs => hrest (by simp [hs])) hcut hpaired hrun

end InOrder

section Overlapping

structure RoundSound (x : Setting R) (sets : List ArmourSet) (candidates : List (Candidate R))
    (round : Round R) : Prop where
  set : round.set ∈ sets
  ahead : round.ahead ⊆ candidates
  visited : ∀ v, round.progress = .visited v → x.HoldsPaired sets candidates v.best

structure ShiftSound (x : Setting R) (sets : List ArmourSet) (candidates : List (Candidate R))
    (s : Shift R) : Prop where
  rounds : ∀ round ∈ s.rounds, x.RoundSound sets candidates round
  held : x.HoldsPaired sets candidates s.held.best

theorem holdsPaired_examine {bar : Option R} {set : ArmourSet} (hset : set ∈ sets)
    {w : Candidate R} (hw : w ∈ candidates) {v : Visit R} (h : x.examine bar set w = .ok v) :
    x.HoldsPaired sets candidates v.best := by
  intro f hf
  unfold examine at h
  split at h
  next =>
    obtain ⟨finds, hfinds, heq⟩ := SuccessfulRun.bind_eq_ok_iff.1 h
    cases heq
    exact ⟨set, hset, w, hw, finds, hfinds, mem_of_bestAbove hf⟩
  next =>
    cases h
    cases hf

theorem holdsPaired_commit {held : Held R} {v : Visit R}
    (hheld : x.HoldsPaired sets candidates held.best)
    (hvisit : x.HoldsPaired sets candidates v.best) :
    x.HoldsPaired sets candidates (held.commit v).best := by
  intro f hf
  exact (Held.best_of_commit hf).elim (hheld f) (hvisit f)

/-- A step changes one round, and what is held only when a visit is handed in. -/
theorem ShiftSound.step {floor : Option R} {s s' : Shift R} (hstep : Shift.Step x floor s s')
    (h : x.ShiftSound sets candidates s) : x.ShiftSound sets candidates s' := by
  obtain ⟨hrounds, hheld⟩ := h
  cases hstep with
  | look before after set w rest held =>
      simp only [List.forall_mem_append, List.forall_mem_cons] at hrounds
      obtain ⟨hbefore, hround, hafter⟩ := hrounds
      have hlooked : x.RoundSound sets candidates ⟨set, w :: rest, .looked (held.bar floor)⟩ :=
        ⟨hround.set, hround.ahead, fun v hv => by cases hv⟩
      refine ⟨?_, hheld⟩
      simp only [List.forall_mem_append, List.forall_mem_cons]
      exact ⟨hbefore, hlooked, hafter⟩
  | visit before after set w rest held bar v hv =>
      simp only [List.forall_mem_append, List.forall_mem_cons] at hrounds
      obtain ⟨hbefore, hround, hafter⟩ := hrounds
      have hw : w ∈ candidates := hround.ahead (by simp)
      have hahead : rest ⊆ candidates := fun u hu => hround.ahead (by simp [hu])
      have hpaired := holdsPaired_examine hround.set hw hv
      have hvisited : x.RoundSound sets candidates ⟨set, rest, .visited v⟩ :=
        ⟨hround.set, hahead, fun v' hv' => by cases hv'; exact hpaired⟩
      refine ⟨?_, hheld⟩
      simp only [List.forall_mem_append, List.forall_mem_cons]
      exact ⟨hbefore, hvisited, hafter⟩
  | handIn before after set rest held v =>
      simp only [List.forall_mem_append, List.forall_mem_cons] at hrounds
      obtain ⟨hbefore, hround, hafter⟩ := hrounds
      have hidle : x.RoundSound sets candidates ⟨set, rest, .idle⟩ :=
        ⟨hround.set, hround.ahead, fun v hv => by cases hv⟩
      refine ⟨?_, holdsPaired_commit hheld (hround.visited v rfl)⟩
      simp only [List.forall_mem_append, List.forall_mem_cons]
      exact ⟨hbefore, hidle, hafter⟩

theorem ShiftSound.leads {floor : Option R} {s s' : Shift R} (hleads : Shift.Leads x floor s s')
    (h : x.ShiftSound sets candidates s) : x.ShiftSound sets candidates s' := by
  induction hleads with
  | refl => exact h
  | tail _ hstep ih => exact ih.step hstep

theorem shiftSound_fresh {batch : List ArmourSet} (hbatch : batch ⊆ sets)
    {fewer : List (Candidate R)} (hfewer : fewer ⊆ candidates) {held : Held R}
    (hheld : x.HoldsPaired sets candidates held.best) :
    x.ShiftSound sets candidates (.fresh fewer batch held) := by
  refine ⟨?_, hheld⟩
  intro round hround
  obtain ⟨set, hset, rfl⟩ := List.mem_map.1 hround
  exact ⟨hbatch hset, hfewer, fun v hv => by cases hv⟩

theorem holdsPaired_mayHold {batches : List (List ArmourSet)}
    (hbatches : ∀ batch ∈ batches, batch ⊆ sets) {fewer : List (Candidate R)}
    (hfewer : fewer ⊆ candidates) {held last : Held R}
    (hheld : x.HoldsPaired sets candidates held.best) (h : x.MayHold batches fewer held last) :
    x.HoldsPaired sets candidates last.best := by
  induction h with
  | done => exact hheld
  | batch batch rest fewer held next last hleads _ ih =>
      have hsound := (shiftSound_fresh (hbatches batch (by simp)) hfewer hheld).leads hleads
      have hcut : Candidate.retainAbove ((next.bar (some sharedFloor)).getD sharedFloor) fewer ⊆
          candidates := fun w hw => hfewer (List.mem_filter.1 hw).1
      exact ih (fun b hb => hbatches b (by simp [hb])) hcut hsound.held

end Overlapping

theorem inBatches_subset {α : Type} {batches : Nat} {items batch : List α}
    (h : batch ∈ Loadout.inBatches batches items) : batch ⊆ items := by
  obtain ⟨range, -, rfl⟩ := List.mem_map.1 h
  intro a ha
  exact List.mem_of_mem_drop (List.mem_of_mem_take ha)

theorem holdsPaired_mayEnd {o : SearchOptions} {held : Held R}
    (h : x.MayEnd o candidates sets held) : x.HoldsPaired sets candidates held.best := by
  cases h with
  | inOrder ho h =>
      obtain ⟨last, hlast, heq⟩ := SuccessfulRun.bind_eq_ok_iff.1 h
      cases heq
      exact holdsPaired_hunt (List.Subset.refl _) (List.Subset.refl _) holdsPaired_none hlast
  | inBatches ho h =>
      exact holdsPaired_mayHold (fun batch hbatch => inBatches_subset hbatch)
        (List.Subset.refl _) holdsPaired_none h

end Setting

/-- What a search lays out before it visits a pairing. -/
structure Groundwork (R : Type) where
  useful : List UsefulDecoration
  candidates : List (Candidate R)
  tables : List (List SlotEntry)
  sets : List ArmourSet

namespace Request

structure LaysOut (q : Request) (c : Catalogue) (g : Groundwork R) : Prop where
  useful : c.decorationsFor q.requirements = .ok g.useful
  candidates : q.candidates c = .ok g.candidates
  tables : q.slotTables c g.useful = .ok g.tables
  sets : ArmourSet.assemble c q.requirements (Layout.ofRequirements? c.skills q.requirements)
    (q.charmSeeds c) g.tables = .ok g.sets

/-- Whether a search may report a build, in order or with visits that overlap in some way. -/
def Reports (q : Request) (c : Catalogue) (o : SearchOptions) (f : Find R) : Prop :=
  ∃ g : Groundwork R, q.LaysOut c g ∧
    ∃ held, (Setting.ofRequest c q g.useful).MayEnd o g.candidates g.sets held ∧
      held.best = some f

variable {q : Request} {c : Catalogue} {o : SearchOptions} {f : Find R}

/-- What the search answers is what a search may report. -/
theorem reports_of_search {outcome : SearchOutcome R} (h : q.search c o = .ok outcome)
    (hf : outcome.best = some f) : q.Reports c o f := by
  obtain ⟨useful, huseful, h⟩ := SuccessfulRun.bind_eq_ok_iff.1 h
  obtain ⟨candidates, hcandidates, h⟩ := SuccessfulRun.bind_eq_ok_iff.1 h
  obtain ⟨tables, htables, h⟩ := SuccessfulRun.bind_eq_ok_iff.1 h
  obtain ⟨sets, hsets, h⟩ := SuccessfulRun.bind_eq_ok_iff.1 h
  obtain ⟨held, hheld, h⟩ := SuccessfulRun.bind_eq_ok_iff.1 h
  cases h
  have hlaid : q.LaysOut c ⟨useful, candidates, tables, sets⟩ :=
    ⟨huseful, hcandidates, htables, SearchError.ofFault_eq_ok_iff.1 hsets⟩
  have hend := Setting.mayEnd_of_sweep (SearchError.ofFault_eq_ok_iff.1 hheld)
  exact ⟨_, hlaid, held, hend, hf⟩

/-- The groundwork of a search with its tables and sets worked out as fronts. -/
def groundwork (q : Request) (c : Catalogue) : Except SearchError (Groundwork R) := do
  let useful ← c.decorationsFor q.requirements
  let candidates ← q.candidates c
  let tables ← Slot.all.mapM (q.slotFront c useful)
  return {
    useful, candidates, tables
    sets := tables.foldl (ArmourSet.nextFront c q.requirements)
      ((frontOf CharmSeed.signature (q.seedChoices c)).map ArmourSet.ofSeed) }

theorem laysOut_of_groundwork (hr : q.requirements.Coherent c.skills) {g : Groundwork R}
    (h : q.groundwork c = .ok g) : q.LaysOut c g := by
  obtain ⟨useful, huseful, h⟩ := SuccessfulRun.bind_eq_ok_iff.1 h
  obtain ⟨candidates, hcandidates, h⟩ := SuccessfulRun.bind_eq_ok_iff.1 h
  obtain ⟨tables, htables, h⟩ := SuccessfulRun.bind_eq_ok_iff.1 h
  cases h
  rw [← slotTables_eq] at htables
  have hsets := assemble_eq hr (.inr rfl) huseful htables
  rw [charmSeeds_eq] at hsets
  exact ⟨huseful, hcandidates, htables, by rw [charmSeeds_eq]; exact hsets⟩

/-- A look at what a request is in a catalogue and at its groundwork, if there are these. -/
def fromGroundwork {α : Type} (d : CatalogueDraft) (draft : RequestDraft)
    (look : Catalogue → Request → Groundwork R → Option α) : Option α :=
  d.resolve.toOption.bind fun c => (resolve c draft).toOption.bind fun q =>
    (q.groundwork c).toOption.bind fun g => look c q g

theorem exists_of_fromGroundwork {α : Type} {d : CatalogueDraft} {draft : RequestDraft}
    {look : Catalogue → Request → Groundwork R → Option α} {a : α}
    (h : fromGroundwork d draft look = some a) :
    ∃ c q g, d.resolve = .ok c ∧ resolve c draft = .ok q ∧ q.LaysOut c g ∧
      look c q g = some a := by
  obtain ⟨c, hc, h⟩ := Option.bind_eq_some_iff.1 h
  obtain ⟨q, hq, h⟩ := Option.bind_eq_some_iff.1 h
  obtain ⟨g, hg, hlook⟩ := Option.bind_eq_some_iff.1 h
  have hq := SuccessfulRun.toOption_eq_some_iff.1 hq
  have hg := SuccessfulRun.toOption_eq_some_iff.1 hg
  exact ⟨c, q, g, SuccessfulRun.toOption_eq_some_iff.1 hc, hq,
    laysOut_of_groundwork (coherent_of_resolve hq) hg, hlook⟩

theorem exists_archer_report : ∃ c q, ∃ f : Find Rat, archerDraft.resolve = .ok c ∧
    c.FitsHandles ∧ resolve c archerRequest = .ok q ∧ q.Reports c {} f := by
  have hrun : (fromGroundwork archerDraft archerRequest fun c q g =>
      if c.FitsHandles then
        ((Setting.ofRequest c q g.useful).searchInOrder g.candidates g.sets).toOption.bind
          fun held => (held.best : Option (Find Rat))
      else none).isSome = true := by
    decide +kernel
  obtain ⟨f, hrun⟩ := Option.isSome_iff_exists.1 hrun
  obtain ⟨c, q, g, hc, hq, hlaid, hrun⟩ := exists_of_fromGroundwork hrun
  obtain ⟨hfits, hrun⟩ := Option.ite_none_right_eq_some.1 hrun
  obtain ⟨held, hheld, hf⟩ := Option.bind_eq_some_iff.1 hrun
  have hheld := SuccessfulRun.toOption_eq_some_iff.1 hheld
  exact ⟨c, q, f, hc, hfits, hq, g, hlaid, held, .inOrder rfl hheld, hf⟩

/-- How a build comes out of a set, a candidate and a packing of its slots. -/
structure FoundFrom (q : Request) (c : Catalogue) (set : ArmourSet) (w : Candidate R) (p : Packing)
    (f : Find R) : Prop where
  weapon : f.weapon = w.weapon
  outfit : f.outfit = set.outfit
  decorations : f.decorations = set.decorations ++ p.decorations
  pieces : f.pieces = Setting.pairedPieces set w
  levels : f.levels =
    q.requirements.restrictLevels (SkillLevels.grant c.skills p.levels f.pieces)
  met : q.requirements.metBy f.levels = true
  effective : Effective.ofLevels c.skills q.requirements q.consumables.boost
    f.weapon.weapon.weaponClass w.stats f.levels = .ok f.effective

/-- What a reported build comes from. -/
structure BuildOf (q : Request) (c : Catalogue) (f : Find R) (useful : List UsefulDecoration)
    (x : Choice q c useful Slot.all) (w : Candidate R) (stats : WeaponStats) (p : Packing)
    (chosen : List UsefulDecoration) : Prop where
  listed : c.decorationsFor q.requirements = .ok useful
  candidate : q.CandidateOf c w stats
  withinCutoffs : q.requirements.withinCutoffs (Setting.pairedPieces x.set w) = true
  fromListed : ∀ u ∈ chosen, u ∈ useful
  filled : p.FilledBy c.skills w.stats.slots
    ((Setting.ofRequest c q useful).pairedLevels x.set w) chosen
  found : FoundFrom q c x.set w p f

theorem BuildOf.own {useful : List UsefulDecoration} {x : Choice q c useful Slot.all}
    {w : Candidate R} {stats : WeaponStats} {p : Packing} {chosen : List UsefulDecoration}
    (h : q.BuildOf c f useful x w stats p chosen) : f.weapon.stats = .ok stats := by
  rw [h.found.weapon]
  exact h.candidate.own

theorem foundFrom_of_find? {useful : List UsefulDecoration} {set : ArmourSet} {w : Candidate R}
    {p : Packing} (h : (Setting.ofRequest c q useful).find? set w p = .ok (some f)) :
    FoundFrom q c set w p f := by
  unfold Setting.find? at h
  dsimp only at h
  split at h
  next hmet =>
    obtain ⟨effective, heffective, h⟩ := SuccessfulRun.bind_eq_ok_iff.1 h
    cases h
    exact ⟨rfl, rfl, rfl, rfl, rfl, hmet, heffective⟩
  next => cases h

/-- A build that a pairing finds comes from a packing that stays within the cutoffs. -/
theorem exists_packing_of_finds {x : Setting R} {set : ArmourSet} {w : Candidate R}
    {finds : List (Find R)} (h : x.finds set w = .ok finds) (hf : f ∈ finds) :
    x.requirements.withinCutoffs (Setting.pairedPieces set w) = true ∧
      ∃ packings, Packing.all x.skills x.decorations w.stats.slots (x.pairedLevels set w) =
        .ok packings ∧ ∃ p ∈ packings, x.find? set w p = .ok (some f) := by
  unfold Setting.finds at h
  split at h
  next hwithin =>
    obtain ⟨packings, hpackings, h⟩ := SuccessfulRun.bind_eq_ok_iff.1 h
    obtain ⟨found, hfound, h⟩ := SuccessfulRun.bind_eq_ok_iff.1 h
    cases h
    have hmem : some f ∈ found := by simpa using hf
    obtain ⟨p, hp, hrun⟩ :=
      SuccessfulRun.exists_item (SuccessfulRun.mapM_eq_ok_iff.1 hfound) hmem
    exact ⟨hwithin, packings, hpackings, p, hp, hrun⟩
  next =>
    cases h
    cases hf

theorem exists_buildOf_of_reports (hr : q.requirements.Coherent c.skills)
    (h : q.Reports c o f) :
    ∃ useful x w stats p chosen, q.BuildOf c f useful x w stats p chosen := by
  obtain ⟨g, hlaid, held, hend, hf⟩ := h
  obtain ⟨set, hset, w, hw, finds, hfinds, hmem⟩ := Setting.holdsPaired_mayEnd hend f hf
  obtain ⟨x, rfl⟩ := exists_choice_of_assemble hr (.inr rfl) hlaid.useful hlaid.tables
    hlaid.sets hset
  obtain ⟨stats, hcandidate⟩ := exists_candidateOf_of_mem_candidates hlaid.candidates hw
  obtain ⟨hwithin, packings, hpackings, p, hp, hfound⟩ := exists_packing_of_finds hfinds hmem
  obtain ⟨chosen, hchosen, hfilled⟩ := Packing.exists_filledBy hpackings hp
  exact ⟨g.useful, x, w, stats, p, chosen, hlaid.useful, hcandidate, hwithin, hchosen, hfilled,
    foundFrom_of_find? hfound⟩

end Request

end Loadout
