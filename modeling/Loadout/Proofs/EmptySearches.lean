import Loadout.Proofs.SharedBar

/-!
# Searches that hold nothing

As long as a search holds nothing, it has no bar but its floor, gives no candidate up and looks at
every pairing.  So a search that holds nothing in the end has found no build in any pairing; in
batches this needs that no ceiling and no build stays below the floor.
-/

namespace Loadout

variable {R : Type} [Reckoning R]

theorem Find.eq_nil_of_bestAbove_eq_none {bar : Option R} {finds : List (Find R)}
    (hexceeds : ∀ f ∈ finds, exceeds bar f.effective.raw = true)
    (h : bestAbove bar finds = none) : finds = [] := by
  cases finds with
  | nil => rfl
  | cons f rest =>
      unfold bestAbove at h
      rw [if_pos (hexceeds f List.mem_cons_self)] at h
      cases h

namespace Setting

variable {x : Setting R} {sets : List ArmourSet} {candidates : List (Candidate R)}

section InOrder

/-- A report that leaves nothing held has changed nothing. -/
theorem eq_of_report_best_none {h : Hunt R} {finds : List (Find R)}
    (hnone : (h.report finds).held.best = none) : finds = [] ∧ h.report finds = h := by
  unfold Hunt.report at hnone ⊢
  dsimp only at hnone ⊢
  cases hbest : Find.bestAbove (h.held.bar none) finds with
  | some f =>
      rw [hbest] at hnone
      cases hnone
  | none =>
      rw [hbest] at hnone
      have hbar : h.held.bar none = none := by
        unfold Held.bar
        rw [show h.held.best = none from hnone]
      rw [hbar] at hbest
      have hnil := Find.eq_nil_of_bestAbove_eq_none (fun _ _ => rfl) hbest
      exact ⟨hnil, by rw [hnil]; rfl⟩

theorem finds_eq_nil_of_huntFrom {set : ArmourSet} {position : Nat} {h next : Hunt R}
    (hrun : x.huntFrom set position h = .ok next) (hnone : next.held.best = none) :
    next = h ∧ ∀ w ∈ h.candidates.drop position, x.finds set w = .ok [] := by
  fun_induction x.huntFrom set position h with
  | case1 position h hposition ih =>
      obtain ⟨finds, hfinds, hrest⟩ := SuccessfulRun.bind_eq_ok_iff.1 hrun
      obtain ⟨rfl, hdrop⟩ := ih finds hrest
      obtain ⟨rfl, hsame⟩ := eq_of_report_best_none hnone
      rw [hsame] at hdrop ⊢
      refine ⟨rfl, fun w hw => ?_⟩
      rw [List.drop_eq_getElem_cons hposition] at hw
      rcases List.mem_cons.1 hw with rfl | hw
      · exact hfinds
      · exact hdrop w hw
  | case2 position h hposition =>
      cases hrun
      refine ⟨rfl, fun w hw => ?_⟩
      rw [List.drop_eq_nil_of_le (Nat.le_of_not_lt hposition)] at hw
      cases hw

theorem finds_eq_nil_of_hunt {h last : Hunt R} (hrun : x.hunt sets h = .ok last)
    (hnone : last.held.best = none) :
    last = h ∧ ∀ set ∈ sets, ∀ w ∈ h.candidates, x.finds set w = .ok [] := by
  induction sets generalizing h with
  | nil =>
      cases hrun
      exact ⟨rfl, List.forall_mem_nil _⟩
  | cons set rest ih =>
      obtain ⟨next, hnext, hrun⟩ := SuccessfulRun.bind_eq_ok_iff.1 hrun
      split at hrun
      next hempty =>
        cases hrun
        obtain ⟨rfl, -⟩ := finds_eq_nil_of_huntFrom hnext hnone
        refine ⟨rfl, fun s _ w hw => ?_⟩
        rw [List.isEmpty_iff.1 hempty] at hw
        cases hw
      next =>
        obtain ⟨rfl, hrest⟩ := ih hrun
        obtain ⟨rfl, hfirst⟩ := finds_eq_nil_of_huntFrom hnext hnone
        rw [List.drop_zero] at hfirst
        exact ⟨rfl, List.forall_mem_cons.2 ⟨hfirst, hrest⟩⟩

end InOrder

/-- Whether no candidate and no build is held back by a floor. -/
structure Clears (x : Setting R) (floor : Option R) (sets : List ArmourSet)
    (candidates : List (Candidate R)) : Prop where
  ceiling : ∀ w ∈ candidates, exceeds floor w.ceiling = true
  raw : ∀ set ∈ sets, ∀ w ∈ candidates, ∀ finds, x.finds set w = .ok finds →
    ∀ f ∈ finds, exceeds floor f.effective.raw = true

theorem finds_eq_nil_of_examine {floor : Option R} (hclear : x.Clears floor sets candidates)
    {set : ArmourSet} (hset : set ∈ sets) {w : Candidate R} (hw : w ∈ candidates) {v : Visit R}
    (h : x.examine floor set w = .ok v) (hnone : v.best = none) : x.finds set w = .ok [] := by
  unfold examine at h
  rw [if_pos (hclear.ceiling w hw)] at h
  obtain ⟨finds, hfinds, hv⟩ := SuccessfulRun.bind_eq_ok_iff.1 h
  cases hv
  have hnil := Find.eq_nil_of_bestAbove_eq_none (hclear.raw set hset w hw finds hfinds) hnone
  rw [hfinds, hnil]

end Setting

theorem Held.best_commit_eq_none_iff {h : Held R} {v : Visit R} :
    (h.commit v).best = none ↔ h.best = none ∧ v.best = none := by
  unfold commit
  cases hbest : h.best with
  | none => simp
  | some held =>
      cases hfound : v.best with
      | none => simp
      | some found =>
          dsimp only
          split <;> simp

namespace Progress

/-- The bar that was read for the visit that has begun. -/
def barOr (floor : Option R) : Progress R → Option R
  | looked bar => bar
  | _ => floor

/-- What has been found and not been handed in. -/
def found : Progress R → Option (Find R)
  | visited v => v.best
  | _ => none

end Progress

/-- Whether a round has looked at its pairings against the floor and has found nothing, apart from
what it has not handed in. -/
structure Round.InVain (x : Setting R) (floor : Option R) (sets : List ArmourSet)
    (candidates : List (Candidate R)) (r : Round R) : Prop where
  set : r.set ∈ sets
  bar : r.progress.barOr floor = floor
  done : ∃ done, done ++ r.ahead = candidates ∧
    (r.progress.found = none → ∀ w ∈ done, x.finds r.set w = .ok [])

namespace Shift

variable {x : Setting R} {floor : Option R} {sets : List ArmourSet}
variable {candidates : List (Candidate R)}

/-- A step after which nothing is held leaves every round in vain. -/
theorem inVain_step {s s' : Shift R} (hclear : x.Clears floor sets candidates)
    (hstep : Step x floor s s')
    (h : s.held.best = none → ∀ r ∈ s.rounds, r.InVain x floor sets candidates)
    (hnone : s'.held.best = none) :
    s.held.best = none ∧ ∀ r ∈ s'.rounds, r.InVain x floor sets candidates := by
  cases hstep with
  | look before after set w rest held =>
      have hrounds := h hnone
      simp only [List.forall_mem_append, List.forall_mem_cons] at hrounds ⊢
      obtain ⟨hbefore, hround, hafter⟩ := hrounds
      have hbar : held.bar floor = floor := by
        unfold Held.bar
        rw [show held.best = none from hnone]
      obtain ⟨done, hdone, hvain⟩ := hround.done
      have hlooked : Round.InVain x floor sets candidates
          ⟨set, w :: rest, .looked (held.bar floor)⟩ :=
        ⟨hround.set, hbar, done, hdone, fun _ => hvain rfl⟩
      exact ⟨hnone, hbefore, hlooked, hafter⟩
  | visit before after set w rest held bar v hv =>
      have hrounds := h hnone
      simp only [List.forall_mem_append, List.forall_mem_cons] at hrounds ⊢
      obtain ⟨hbefore, hround, hafter⟩ := hrounds
      obtain rfl : bar = floor := hround.bar
      obtain ⟨done, hdone, hvain⟩ := hround.done
      have hw : w ∈ candidates := hdone ▸ List.mem_append_right done List.mem_cons_self
      have hvisited : Round.InVain x bar sets candidates ⟨set, rest, .visited v⟩ := by
        refine ⟨hround.set, rfl, done ++ [w], ?_, fun hfound => ?_⟩
        · rw [List.append_assoc]
          exact hdone
        · have hlast := Setting.finds_eq_nil_of_examine hclear hround.set hw hv hfound
          have hfirst := hvain rfl
          simp only [List.forall_mem_append, List.forall_mem_singleton]
          exact ⟨hfirst, hlast⟩
      exact ⟨hnone, hbefore, hvisited, hafter⟩
  | handIn before after set rest held v =>
      obtain ⟨hheld, hfound⟩ := Held.best_commit_eq_none_iff.1 hnone
      have hrounds := h hheld
      simp only [List.forall_mem_append, List.forall_mem_cons] at hrounds ⊢
      obtain ⟨hbefore, hround, hafter⟩ := hrounds
      obtain ⟨done, hdone, hvain⟩ := hround.done
      have hidle : Round.InVain x floor sets candidates ⟨set, rest, .idle⟩ :=
        ⟨hround.set, rfl, done, hdone, fun _ => hvain hfound⟩
      exact ⟨hheld, hbefore, hidle, hafter⟩

theorem inVain_leads {batch : List ArmourSet} {held : Held R} {s : Shift R}
    (hclear : x.Clears floor sets candidates) (hbatch : batch ⊆ sets)
    (hleads : Leads x floor (fresh candidates batch held) s) (hnone : s.held.best = none) :
    held.best = none ∧ ∀ r ∈ s.rounds, r.InVain x floor sets candidates := by
  induction hleads with
  | refl =>
      refine ⟨hnone, fun r hr => ?_⟩
      obtain ⟨set, hset, rfl⟩ := List.mem_map.1 hr
      exact ⟨hbatch hset, rfl, [], rfl, fun _ => List.forall_mem_nil _⟩
  | tail _ hstep ih =>
      obtain ⟨hbefore, hrounds⟩ := inVain_step hclear hstep (fun h => (ih h).2) hnone
      exact ⟨(ih hbefore).1, hrounds⟩

end Shift

namespace Setting

variable {x : Setting R} {sets : List ArmourSet} {candidates : List (Candidate R)}

theorem finds_eq_nil_of_mayHold {batches : List (List ArmourSet)} {held last : Held R}
    (hclear : x.Clears (some sharedFloor) sets candidates) (hbatches : ∀ b ∈ batches, b ⊆ sets)
    (h : x.MayHold batches candidates held last) (hnone : last.best = none) :
    held.best = none ∧ ∀ b ∈ batches, ∀ set ∈ b, ∀ w ∈ candidates, x.finds set w = .ok [] := by
  induction h with
  | done => exact ⟨hnone, List.forall_mem_nil _⟩
  | batch batch rest candidates held next last hleads _ ih =>
      obtain ⟨hbatch, hrest⟩ := List.forall_mem_cons.1 hbatches
      have hcut : x.Clears (some sharedFloor) sets (Candidate.retainAbove
          ((next.bar (some sharedFloor)).getD sharedFloor) candidates) :=
        ⟨fun w hw => hclear.ceiling w (List.mem_filter.1 hw).1,
          fun set hset w hw => hclear.raw set hset w (List.mem_filter.1 hw).1⟩
      obtain ⟨hnext, hlater⟩ := ih hcut hrest hnone
      obtain ⟨hheld, hrounds⟩ := Shift.inVain_leads hclear hbatch hleads hnext
      -- nothing is held, so the candidates are cut back to those above the floor, which are all
      have hall : Candidate.retainAbove ((next.bar (some sharedFloor)).getD sharedFloor)
          candidates = candidates := by
        have hbar : next.bar (some sharedFloor) = some sharedFloor := by
          unfold Held.bar
          rw [hnext]
        rw [hbar]
        exact List.filter_eq_self.2 hclear.ceiling
      rw [hall] at hlater
      refine ⟨hheld, List.forall_mem_cons.2 ⟨fun set hset w hw => ?_, hlater⟩⟩
      have hround := hrounds ⟨set, [], .idle⟩ (List.mem_map.2 ⟨set, hset, rfl⟩)
      obtain ⟨done, hdone, hvain⟩ := hround.done
      rw [List.append_nil] at hdone
      exact hvain rfl w (hdone ▸ hw)

/-- In order or in batches, a search that holds nothing has found no build in any pairing. -/
theorem finds_eq_nil_of_mayEnd {o : SearchOptions} {held : Held R}
    (h : x.MayEnd o candidates sets held) (hnone : held.best = none)
    (hclear : o.parallel = true → x.Clears (some sharedFloor) sets candidates) :
    ∀ set ∈ sets, ∀ w ∈ candidates, x.finds set w = .ok [] := by
  cases h with
  | inOrder _ h =>
      obtain ⟨last, hlast, hheld⟩ := SuccessfulRun.bind_eq_ok_iff.1 h
      cases hheld
      exact (finds_eq_nil_of_hunt hlast hnone).2
  | inBatches ho h =>
      obtain ⟨-, hfinds⟩ :=
        finds_eq_nil_of_mayHold (hclear ho) (fun b hb => inBatches_subset hb) h hnone
      intro set hset w hw
      rw [← flatten_inBatches (Nat.lt_of_lt_of_le Nat.zero_lt_one (Nat.le_max_right _ _)) sets]
        at hset
      obtain ⟨b, hb, hset⟩ := List.mem_flatten.1 hset
      exact hfinds b hb set hset w hw

end Setting

end Loadout
