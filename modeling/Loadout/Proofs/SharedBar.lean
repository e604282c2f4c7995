import Loadout.Proofs.EvenBatches
import Loadout.Proofs.ReportedBuilds
import Loadout.Proofs.SearchInOrder

/-!
# A bar that workers share

Workers that share the sets of a batch hold the best build under a lock, and keep its effective raw
attack a second time where it can be read without the lock.  The bar that a worker has read may be
stale when it visits its pairing, a pairing may be skipped for it, and a build that exceeded it may
no longer exceed the held one.  Between two batches the candidates are cut back to those above the
bar.

However the steps of the workers interleave, the search ends, and it then holds a best build of all
pairings if there is one above the floor.  Every step keeps the account on which this rests: the bar
is the one of the held build, a stale bar is only lower, and whatever has been passed, by a visit or
by a cut, has no build above the bar but one that is about to be handed in.
-/

namespace Loadout

variable {R : Type} [Reckoning R]

namespace Round

def fresh (candidates : List (Candidate R)) (set : ArmourSet) : Round R := ⟨set, candidates, .idle⟩

structure Done (r : Round R) : Prop where
  ahead : r.ahead = []
  idle : r.progress = .idle

omit [Reckoning R] in
/-- Without candidates a batch is over as soon as it has begun. -/
theorem done_of_mem_fresh {batch : List ArmourSet} {r : Round R}
    (h : r ∈ batch.map (fresh [])) : r.Done := by
  obtain ⟨set, -, rfl⟩ := List.mem_map.1 h
  exact ⟨rfl, rfl⟩

end Round

/-- The bar after a visit has been handed in: it rises with the held build, and only then. -/
def Held.raisedBar (h : Held R) (v : Visit R) (shared : R) : R :=
  match h.best, v.best with
  | some held, some found =>
      if Reckoning.less held.effective.raw found.effective.raw then
        Reckoning.larger shared found.effective.raw
      else shared
  | none, some found => Reckoning.larger shared found.effective.raw
  | _, none => shared

/-- A search in batches that workers share. -/
structure Crew (R : Type) where
  /-- The batches that have not been begun. -/
  ahead : List (List ArmourSet)
  /-- The candidates of the present batch. -/
  candidates : List (Candidate R)
  rounds : List (Round R)
  /-- The bar that is read without the lock. -/
  shared : R
  /-- What is held under the lock. -/
  held : Held R

namespace Crew

/-- The candidates above the bar. -/
def left (c : Crew R) : List (Candidate R) := Candidate.retainAbove c.shared c.candidates

/-- The first batch begun with all candidates, and nothing held. -/
def start (batches : Nat) (candidates : List (Candidate R)) (sets : List ArmourSet) : Crew R :=
  let all := inBatches (max batches 1) sets
  ⟨all.tail, candidates, (all.head?.getD []).map (Round.fresh candidates), Setting.sharedFloor,
    .nothing⟩

inductive Step (x : Setting R) : Crew R → Crew R → Prop where
  | look (before after : List (Round R)) (set : ArmourSet) (w : Candidate R)
      (rest : List (Candidate R)) (c : Crew R)
      (h : c.rounds = before ++ ⟨set, w :: rest, .idle⟩ :: after) :
      Step x c { c with rounds := before ++ ⟨set, w :: rest, .looked (some c.shared)⟩ :: after }
  | visit (before after : List (Round R)) (set : ArmourSet) (w : Candidate R)
      (rest : List (Candidate R)) (bar : Option R) (v : Visit R) (c : Crew R)
      (h : c.rounds = before ++ ⟨set, w :: rest, .looked bar⟩ :: after)
      (hv : x.examine bar set w = .ok v) :
      Step x c { c with rounds := before ++ ⟨set, rest, .visited v⟩ :: after }
  | handIn (before after : List (Round R)) (set : ArmourSet) (rest : List (Candidate R))
      (v : Visit R) (c : Crew R) (h : c.rounds = before ++ ⟨set, rest, .visited v⟩ :: after) :
      Step x c { c with
        rounds := before ++ ⟨set, rest, .idle⟩ :: after
        shared := c.held.raisedBar v c.shared
        held := c.held.commit v }
  | nextBatch (batch : List ArmourSet) (rest : List (List ArmourSet)) (c : Crew R)
      (h : c.ahead = batch :: rest) (hdone : ∀ r ∈ c.rounds, r.Done) (hleft : c.left ≠ []) :
      Step x c { c with
        ahead := rest, candidates := c.left, rounds := batch.map (Round.fresh c.left) }

abbrev Leads (x : Setting R) : Crew R → Crew R → Prop := Relation.ReflTransGen (Step x)

/-- Whether the search has ended: no batch or no candidate is left. -/
structure Over (c : Crew R) : Prop where
  done : ∀ r ∈ c.rounds, r.Done
  nothingLeft : c.ahead = [] ∨ c.left = []

end Crew

namespace Find

variable [LinearOrder R] [LinearReckoning R]

/-- No find exceeds both the bar and the best one above it. -/
theorem raw_le_bar_or_bestAbove {bar : R} {finds : List (Find R)} {g : Find R} (hg : g ∈ finds) :
    g.effective.raw ≤ bar ∨
      ∃ f, bestAbove (some bar) finds = some f ∧ g.effective.raw ≤ f.effective.raw := by
  induction finds generalizing bar with
  | nil => cases hg
  | cons f rest ih =>
      by_cases hbar : bar < f.effective.raw
      · have hbest : bestAbove (some bar) (f :: rest) =
            some ((bestAbove (some f.effective.raw) rest).getD f) := by
          simp only [bestAbove, exceeds, Reckoning.less_iff, hbar, if_true]
        refine .inr ⟨_, hbest, ?_⟩
        -- the first find is the bar of the rest, so the best one does not stay below it
        have hrise : f.effective.raw ≤
            ((bestAbove (some f.effective.raw) rest).getD f).effective.raw := by
          cases hrest : bestAbove (some f.effective.raw) rest with
          | none => exact le_rfl
          | some best => exact (bar_lt_of_bestAbove hrest).le
        rcases List.mem_cons.1 hg with rfl | hg
        · exact hrise
        · obtain hle | ⟨best, hsome, hle⟩ : g.effective.raw ≤ f.effective.raw ∨
              ∃ best, bestAbove (some f.effective.raw) rest = some best ∧
                g.effective.raw ≤ best.effective.raw := ih hg
          · exact hle.trans hrise
          · rwa [hsome]
      · have hbest : bestAbove (some bar) (f :: rest) = bestAbove (some bar) rest := by
          simp only [bestAbove, exceeds, Reckoning.less_iff, hbar, if_false]
        rw [hbest]
        rcases List.mem_cons.1 hg with rfl | hg
        · exact .inl (not_lt.1 hbar)
        · exact ih hg

end Find

/-- Whether a number is reached by the bar, or by what the round is about to hand in. -/
def Round.Reaches (r : Round R) [LinearOrder R] (shared a : R) : Prop :=
  a ≤ shared ∨ ∃ v f, r.progress = .visited v ∧ v.best = some f ∧ a ≤ f.effective.raw

/-- The account of a round, on a bar, in a search over sets and candidates. -/
structure Round.Accounted [LinearOrder R] (x : Setting R) (sets : List ArmourSet)
    (all : List (Candidate R)) (shared : R) (r : Round R) : Prop where
  set : r.set ∈ sets
  ahead : r.ahead ⊆ all
  looked : ∀ bar, r.progress = .looked bar →
    r.ahead ≠ [] ∧ ∃ b, bar = some b ∧ Setting.sharedFloor ≤ b ∧ b ≤ shared
  found : ∀ v f, r.progress = .visited v → v.best = some f →
    Setting.sharedFloor < f.effective.raw ∧ f ∈ x.allBuilds sets all
  passed : ∀ w ∈ all, w ∈ r.ahead ∨ ∀ f ∈ x.builds r.set w, r.Reaches shared f.effective.raw

/-- The account of a search over sets and candidates. -/
structure Crew.Accounted [LinearOrder R] (x : Setting R) (sets : List ArmourSet)
    (all : List (Candidate R)) (c : Crew R) : Prop where
  shared : c.held.bar (some Setting.sharedFloor) = some c.shared
  best : ∀ f, c.held.best = some f →
    Setting.sharedFloor < f.effective.raw ∧ f ∈ x.allBuilds sets all
  candidates : c.candidates ⊆ all
  cut : ∀ w ∈ all, w ∈ c.candidates ∨ w.ceiling ≤ c.shared
  ahead : ∀ batch ∈ c.ahead, batch ⊆ sets
  rounds : ∀ r ∈ c.rounds, r.Accounted x sets all c.shared
  covered : ∀ set ∈ sets, (∃ batch ∈ c.ahead, set ∈ batch) ∨ set ∈ c.rounds.map (·.set) ∨
    ∀ w ∈ all, ∀ f ∈ x.builds set w, f.effective.raw ≤ c.shared

variable [LinearOrder R] {x : Setting R} {sets : List ArmourSet} {all : List (Candidate R)}

namespace Round

theorem Accounted.mono {r : Round R} {low high : R} (h : low ≤ high)
    (hr : r.Accounted x sets all low) : r.Accounted x sets all high where
  set := hr.set
  ahead := hr.ahead
  looked := by
    intro bar hbar
    obtain ⟨hne, b, heq, hfloor, hle⟩ := hr.looked bar hbar
    exact ⟨hne, b, heq, hfloor, hle.trans h⟩
  found := hr.found
  passed := fun w hw => (hr.passed w hw).imp_right fun hreach f hf =>
    (hreach f hf).imp_left fun hle => hle.trans h

/-- Between visits a round has nothing to hand in. -/
theorem Accounted.passed_of_idle {r : Round R} {shared : R} (hr : r.Accounted x sets all shared)
    (hidle : r.progress = .idle) {w : Candidate R} (hw : w ∈ all) (hahead : w ∉ r.ahead)
    {f : Find R} (hf : f ∈ x.builds r.set w) : f.effective.raw ≤ shared := by
  obtain hle | ⟨v, g, hvisited, -⟩ := (hr.passed w hw).resolve_left hahead f hf
  · exact hle
  · rw [hidle] at hvisited
    cases hvisited

theorem accounted_fresh {set : ArmourSet} (hset : set ∈ sets) {candidates : List (Candidate R)}
    (hsubset : candidates ⊆ all) {shared : R}
    (hcut : ∀ w ∈ all, w ∈ candidates ∨ w.ceiling ≤ shared)
    (hbound : ∀ w ∈ all, ∀ f ∈ x.builds set w, f.effective.raw ≤ w.ceiling) :
    (fresh candidates set).Accounted x sets all shared where
  set := hset
  ahead := hsubset
  looked := fun _ h => by cases h
  found := fun _ _ h => by cases h
  passed := fun w hw => (hcut w hw).imp_right fun hle f hf => .inl ((hbound w hw f hf).trans hle)

theorem Accounted.look {set : ArmourSet} {w : Candidate R} {rest : List (Candidate R)}
    {shared : R} (hfloor : Setting.sharedFloor ≤ shared)
    (hr : Accounted x sets all shared ⟨set, w :: rest, .idle⟩) :
    Accounted x sets all shared ⟨set, w :: rest, .looked (some shared)⟩ where
  set := hr.set
  ahead := hr.ahead
  looked := by
    intro bar hbar
    cases hbar
    exact ⟨List.cons_ne_nil _ _, shared, rfl, hfloor, le_rfl⟩
  found := fun _ _ h => by cases h
  passed := by
    intro u hu
    by_cases hahead : u ∈ w :: rest
    · exact .inl hahead
    · exact .inr fun f hf => .inl (hr.passed_of_idle rfl hu hahead hf)

theorem Accounted.handIn {set : ArmourSet} {rest : List (Candidate R)} {shared raised : R}
    {v : Visit R} (hraised : shared ≤ raised)
    (hfound : ∀ f, v.best = some f → f.effective.raw ≤ raised)
    (hr : Accounted x sets all shared ⟨set, rest, .visited v⟩) :
    Accounted x sets all raised ⟨set, rest, .idle⟩ where
  set := hr.set
  ahead := hr.ahead
  looked := fun _ h => by cases h
  found := fun _ _ h => by cases h
  passed := by
    intro w hw
    refine (hr.passed w hw).imp_right fun hreach f hf => .inl ?_
    obtain h | ⟨v', g, hvisited, hg, h⟩ := hreach f hf
    · exact h.trans hraised
    · cases hvisited
      exact h.trans (hfound g hg)

variable [LinearReckoning R]

/-- A visit finds the best build above the bar, and passes over no other one. -/
theorem raw_le_of_examine {set : ArmourSet} {w : Candidate R} {bar : R} {v : Visit R}
    (hbound : ∀ f ∈ x.builds set w, f.effective.raw ≤ w.ceiling)
    (hv : x.examine (some bar) set w = .ok v) :
    (∀ f ∈ x.builds set w, f.effective.raw ≤ bar ∨
      ∃ g, v.best = some g ∧ f.effective.raw ≤ g.effective.raw) ∧
    ∀ g, v.best = some g → bar < g.effective.raw ∧ g ∈ x.builds set w := by
  unfold Setting.examine at hv
  split at hv
  next =>
    obtain ⟨finds, hfinds, heq⟩ := SuccessfulRun.bind_eq_ok_iff.1 hv
    cases heq
    rw [Setting.builds_of_finds hfinds]
    exact ⟨fun f hf => Find.raw_le_bar_or_bestAbove hf, fun g hg =>
      ⟨Find.bar_lt_of_bestAbove hg, Setting.mem_of_bestAbove hg⟩⟩
  next hskip =>
    cases hv
    have hceiling : w.ceiling ≤ bar := by
      simpa [exceeds, Reckoning.less_iff] using hskip
    exact ⟨fun f hf => .inl ((hbound f hf).trans hceiling), fun g hg => by cases hg⟩

theorem Accounted.visit {set : ArmourSet} {w : Candidate R} {rest : List (Candidate R)}
    {shared : R} {bar : Option R} {v : Visit R}
    (hbound : ∀ f ∈ x.builds set w, f.effective.raw ≤ w.ceiling)
    (hv : x.examine bar set w = .ok v)
    (hr : Accounted x sets all shared ⟨set, w :: rest, .looked bar⟩) :
    Accounted x sets all shared ⟨set, rest, .visited v⟩ := by
  obtain ⟨-, b, rfl, hfloor, hstale⟩ := hr.looked bar rfl
  obtain ⟨hle, hfound⟩ := raw_le_of_examine hbound hv
  have hw : w ∈ all := hr.ahead List.mem_cons_self
  constructor
  case set => exact hr.set
  case ahead => exact fun u hu => hr.ahead (List.mem_cons_of_mem w hu)
  case looked =>
    intro bar hbar
    cases hbar
  case found =>
    intro v' g hvisited hg
    cases hvisited
    obtain ⟨hlt, hmem⟩ := hfound g hg
    exact ⟨hfloor.trans_lt hlt,
      List.mem_flatMap.2 ⟨set, hr.set, List.mem_flatMap.2 ⟨w, hw, hmem⟩⟩⟩
  case passed =>
    intro u hu
    rcases hr.passed u hu with hahead | hreach
    · rcases List.mem_cons.1 hahead with rfl | hahead
      · refine .inr fun f hf => ?_
        obtain h | ⟨g, hg, h⟩ := hle f hf
        · exact .inl (h.trans hstale)
        · exact .inr ⟨v, g, rfl, hg, h⟩
      · exact .inl hahead
    · refine .inr fun f hf => ?_
      obtain h | ⟨v', g, hvisited, -⟩ := hreach f hf
      · exact .inl h
      · cases hvisited

end Round

namespace Crew.Accounted

variable {c : Crew R}

theorem floor_le (h : c.Accounted x sets all) : Setting.sharedFloor ≤ c.shared := by
  have hshared := h.shared
  unfold Held.bar at hshared
  cases hbest : c.held.best with
  | none =>
      rw [hbest] at hshared
      exact (Option.some.inj hshared).le
  | some f =>
      rw [hbest] at hshared
      exact Option.some.inj hshared ▸ (h.best f hbest).1.le

/-- One round is replaced by its next state, and the bar may rise with what is held. -/
theorem replace (h : c.Accounted x sets all) {before after : List (Round R)} {r r' : Round R}
    (hrounds : c.rounds = before ++ r :: after) {shared : R} {held : Held R}
    (hr' : r'.Accounted x sets all shared) (hset : r'.set = r.set) (hle : c.shared ≤ shared)
    (hshared : held.bar (some Setting.sharedFloor) = some shared)
    (hbest : ∀ f, held.best = some f →
      Setting.sharedFloor < f.effective.raw ∧ f ∈ x.allBuilds sets all) :
    Accounted x sets all
      { c with rounds := before ++ r' :: after, shared := shared, held := held } where
  shared := hshared
  best := hbest
  candidates := h.candidates
  cut := fun w hw => (h.cut w hw).imp_right fun hceiling => hceiling.trans hle
  ahead := h.ahead
  rounds := by
    have hothers := h.rounds
    rw [hrounds] at hothers
    simp only [List.forall_mem_append, List.forall_mem_cons] at hothers ⊢
    exact ⟨fun s hs => (hothers.1 s hs).mono hle, hr', fun s hs => (hothers.2.2 s hs).mono hle⟩
  covered := by
    intro set hin
    have hsame : (before ++ r' :: after).map (·.set) = c.rounds.map (·.set) := by
      simp [hrounds, hset]
    obtain hahead | hround | hreached := h.covered set hin
    · exact .inl hahead
    · exact .inr (.inl (hsame ▸ hround))
    · exact .inr (.inr fun w hw f hf => (hreached w hw f hf).trans hle)

theorem nextBatch (h : c.Accounted x sets all)
    (hbound : ∀ set ∈ sets, ∀ w ∈ all, ∀ f ∈ x.builds set w, f.effective.raw ≤ w.ceiling)
    {batch : List ArmourSet} {rest : List (List ArmourSet)} (hahead : c.ahead = batch :: rest)
    (hdone : ∀ r ∈ c.rounds, r.Done) {left : List (Candidate R)} (hleft : left ⊆ all)
    (hcut : ∀ w ∈ all, w ∈ left ∨ w.ceiling ≤ c.shared) :
    Accounted x sets all
      { c with ahead := rest, candidates := left, rounds := batch.map (Round.fresh left) } := by
  have hbatches := h.ahead
  rw [hahead, List.forall_mem_cons] at hbatches
  refine ⟨h.shared, h.best, hleft, hcut, hbatches.2, ?_, ?_⟩
  case refine_1 =>
    intro r hr
    obtain ⟨set, hset, rfl⟩ := List.mem_map.1 hr
    have hin := hbatches.1 hset
    exact Round.accounted_fresh hin hleft hcut (hbound set hin)
  case refine_2 =>
    intro set hset
    obtain ⟨b, hb, hin⟩ | hround | hreached := h.covered set hset
    · rw [hahead] at hb
      rcases List.mem_cons.1 hb with rfl | hb
      · exact .inr (.inl (by simpa [Round.fresh] using hin))
      · exact .inl ⟨b, hb, hin⟩
    · -- a round that is done has passed every candidate
      obtain ⟨r, hr, rfl⟩ := List.mem_map.1 hround
      refine .inr (.inr fun w hw f hf => ?_)
      exact (h.rounds r hr).passed_of_idle (hdone r hr).idle hw (by simp [(hdone r hr).ahead]) hf
    · exact .inr (.inr hreached)

variable [LinearReckoning R]

/-- Handing in a visit keeps the bar the one of the held build. -/
theorem bar_commit {held : Held R} {v : Visit R} {shared : R}
    (hshared : held.bar (some Setting.sharedFloor) = some shared)
    (hfound : ∀ f, v.best = some f → Setting.sharedFloor < f.effective.raw) :
    (held.commit v).bar (some Setting.sharedFloor) = some (held.raisedBar v shared) ∧
      shared ≤ held.raisedBar v shared ∧
      ∀ f, v.best = some f → f.effective.raw ≤ held.raisedBar v shared := by
  unfold Held.bar at hshared
  unfold Held.raisedBar Held.commit Held.bar
  cases hbest : held.best with
  | none =>
      rw [hbest] at hshared
      obtain rfl := Option.some.inj hshared
      cases hv : v.best with
      | none => simp
      | some f => simp [Reckoning.larger_eq_max, (hfound f hv).le]
  | some g =>
      rw [hbest] at hshared
      obtain rfl := Option.some.inj hshared
      cases hv : v.best with
      | none => simp
      | some f =>
          by_cases hlt : g.effective.raw < f.effective.raw
          · simp [Reckoning.less_iff, Reckoning.larger_eq_max, hlt, hlt.le]
          · simp [Reckoning.less_iff, hlt, not_lt.1 hlt]

theorem step {c' : Crew R}
    (hbound : ∀ set ∈ sets, ∀ w ∈ all, ∀ f ∈ x.builds set w, f.effective.raw ≤ w.ceiling)
    (hstep : Step x c c') (h : c.Accounted x sets all) : c'.Accounted x sets all := by
  cases hstep with
  | look before after set w rest _ hrounds =>
      have hround := h.rounds _ (hrounds ▸ List.mem_append_right before List.mem_cons_self)
      exact h.replace hrounds (hround.look h.floor_le) rfl le_rfl h.shared h.best
  | visit before after set w rest bar v _ hrounds hv =>
      have hround := h.rounds _ (hrounds ▸ List.mem_append_right before List.mem_cons_self)
      have hw : w ∈ all := hround.ahead List.mem_cons_self
      have hvisited := hround.visit (hbound set hround.set w hw) hv
      exact h.replace hrounds hvisited rfl le_rfl h.shared h.best
  | handIn before after set rest v _ hrounds =>
      have hround := h.rounds _ (hrounds ▸ List.mem_append_right before List.mem_cons_self)
      obtain ⟨hbar, hle, hreached⟩ := bar_commit h.shared fun f hf => (hround.found v f rfl hf).1
      refine h.replace hrounds (hround.handIn hle hreached) rfl hle hbar fun f hf => ?_
      exact (Held.best_of_commit hf).elim (h.best f) (hround.found v f rfl)
  | nextBatch batch rest _ hahead hdone hleft =>
      refine h.nextBatch hbound hahead hdone
        (fun w hw => h.candidates (List.mem_filter.1 hw).1) fun w hw => ?_
      obtain hin | hceiling := h.cut w hw
      · by_cases habove : c.shared < w.ceiling
        · exact .inl (List.mem_filter.2 ⟨hin, Reckoning.less_iff.2 habove⟩)
        · exact .inr (not_lt.1 habove)
      · exact .inr hceiling

theorem leads {c' : Crew R}
    (hbound : ∀ set ∈ sets, ∀ w ∈ all, ∀ f ∈ x.builds set w, f.effective.raw ≤ w.ceiling)
    (hleads : Leads x c c') (h : c.Accounted x sets all) : c'.Accounted x sets all := by
  induction hleads with
  | refl => exact h
  | tail _ hstep ih => exact ih.step hbound hstep

/-- When a search has ended, no build exceeds the bar. -/
theorem raw_le_of_over
    (hbound : ∀ set ∈ sets, ∀ w ∈ all, ∀ f ∈ x.builds set w, f.effective.raw ≤ w.ceiling)
    (h : c.Accounted x sets all) (hover : c.Over) :
    ∀ f ∈ x.allBuilds sets all, f.effective.raw ≤ c.shared := by
  intro f hf
  obtain ⟨set, hset, hf⟩ := List.mem_flatMap.1 hf
  obtain ⟨w, hw, hf⟩ := List.mem_flatMap.1 hf
  obtain hahead | hleft := hover.nothingLeft
  · obtain ⟨batch, hbatch, -⟩ | hround | hreached := h.covered set hset
    · rw [hahead] at hbatch
      cases hbatch
    · obtain ⟨r, hr, rfl⟩ := List.mem_map.1 hround
      have hdone := hover.done r hr
      exact (h.rounds r hr).passed_of_idle hdone.idle hw (by simp [hdone.ahead]) hf
    · exact hreached w hw f hf
  · refine (hbound set hset w hw f hf).trans ?_
    obtain hin | hceiling := h.cut w hw
    · by_contra habove
      have hmem : w ∈ c.left :=
        List.mem_filter.2 ⟨hin, Reckoning.less_iff.2 (not_le.1 habove)⟩
      rw [hleft] at hmem
      cases hmem
    · exact hceiling

end Crew.Accounted

namespace Crew

theorem accounted_start (batches : Nat) {candidates : List (Candidate R)}
    (hbound : ∀ set ∈ sets, ∀ w ∈ candidates, ∀ f ∈ x.builds set w, f.effective.raw ≤ w.ceiling) :
    (start batches candidates sets).Accounted x sets candidates := by
  have hall : (inBatches (max batches 1) sets).flatten = sets :=
    flatten_inBatches (by omega) sets
  have hsubset : ∀ batch ∈ inBatches (max batches 1) sets, batch ⊆ sets := fun batch hbatch =>
    Setting.inBatches_subset hbatch
  unfold start
  generalize inBatches (max batches 1) sets = all at hall hsubset
  constructor
  case shared => rfl
  case best =>
    intro f hf
    cases hf
  case candidates => exact List.Subset.refl _
  case cut => exact fun w hw => .inl hw
  case ahead => exact fun batch hbatch => hsubset batch (List.mem_of_mem_tail hbatch)
  case rounds =>
    intro r hr
    obtain ⟨set, hset, rfl⟩ := List.mem_map.1 hr
    have hin : set ∈ sets := by
      cases all with
      | nil => cases hset
      | cons batch rest => exact hsubset batch List.mem_cons_self hset
    exact Round.accounted_fresh hin (List.Subset.refl _) (fun w hw => .inl hw) (hbound set hin)
  case covered =>
    intro set hset
    rw [← hall] at hset
    obtain ⟨batch, hbatch, hin⟩ := List.mem_flatten.1 hset
    cases all with
    | nil => cases hbatch
    | cons first rest =>
        rcases List.mem_cons.1 hbatch with rfl | hbatch
        · exact .inr (.inl (by simpa [Round.fresh] using hin))
        · exact .inl ⟨batch, hbatch, hin⟩

section Work

omit [LinearOrder R]

/-- The steps that are left of a round. -/
def roundWork (r : Round R) : Nat :=
  match r.progress with
  | .idle => 3 * r.ahead.length
  | .looked _ => 3 * r.ahead.length - 1
  | .visited _ => 3 * r.ahead.length + 1

/-- The steps that are left of a search, if no further candidate is cut. -/
def work (c : Crew R) : Nat :=
  (c.rounds.map roundWork).sum + c.ahead.length +
    c.ahead.flatten.length * (3 * c.candidates.length)

omit [Reckoning R] in
theorem sum_roundWork_fresh (batch : List ArmourSet) (candidates : List (Candidate R)) :
    ((batch.map (Round.fresh candidates)).map roundWork).sum =
      batch.length * (3 * candidates.length) := by
  induction batch with
  | nil => simp
  | cons set rest ih =>
      have hfresh : roundWork (Round.fresh candidates set) = 3 * candidates.length := rfl
      rw [List.map_cons, List.map_cons, List.sum_cons, ih, hfresh, List.length_cons,
        Nat.add_mul, Nat.one_mul, Nat.add_comm]

theorem work_lt_of_step {c c' : Crew R} (h : Step x c c') : c'.work < c.work := by
  cases h with
  | look before after set w rest _ hrounds => simp [work, hrounds, roundWork]
  | visit before after set w rest bar v _ hrounds hv =>
      simp [work, hrounds, roundWork]
      omega
  | handIn before after set rest v _ hrounds => simp [work, hrounds, roundWork]
  | nextBatch batch rest _ hahead hdone hleft =>
      have hcut : c.left.length ≤ c.candidates.length := List.length_filter_le _ _
      have hlater : (batch ++ rest.flatten).length * (3 * c.left.length) ≤
          (batch ++ rest.flatten).length * (3 * c.candidates.length) := by gcongr
      simp only [List.length_append, Nat.add_mul] at hlater
      simp only [work, hahead, sum_roundWork_fresh, List.length_cons, List.flatten_cons,
        List.length_append, Nat.add_mul]
      omega

/-- No search goes on for ever. -/
theorem exists_not_step (x : Setting R) (run : Nat → Crew R) :
    ∃ n, ¬ Step x (run n) (run (n + 1)) := by
  by_contra hall
  push Not at hall
  have hfall : ∀ n, (run n).work + n ≤ (run 0).work := by
    intro n
    induction n with
    | zero => exact le_rfl
    | succ n ih =>
        have hlt := work_lt_of_step (hall n)
        omega
  have hbeyond := hfall ((run 0).work + 1)
  omega

end Work

/-- A search that has not ended can go on, unless a pairing has a fault. -/
theorem over_or_exists_step {c : Crew R} (h : c.Accounted x sets all)
    (hfinds : ∀ set ∈ sets, ∀ w ∈ all, ∃ finds, x.finds set w = .ok finds) :
    c.Over ∨ ∃ c', Step x c c' := by
  by_cases hdone : ∀ r ∈ c.rounds, r.Done
  · cases hahead : c.ahead with
    | nil => exact .inl ⟨hdone, .inl hahead⟩
    | cons batch rest =>
        by_cases hleft : c.left = []
        · exact .inl ⟨hdone, .inr hleft⟩
        · exact .inr ⟨_, .nextBatch batch rest c hahead hdone hleft⟩
  · right
    push Not at hdone
    obtain ⟨r, hr, hopen⟩ := hdone
    have hround := h.rounds r hr
    obtain ⟨before, after, hrounds⟩ := List.append_of_mem hr
    obtain ⟨set, ahead, progress⟩ := r
    cases progress with
    | idle =>
        cases ahead with
        | nil => exact absurd ⟨rfl, rfl⟩ hopen
        | cons w rest => exact ⟨_, .look before after set w rest c hrounds⟩
    | looked bar =>
        cases ahead with
        | nil => exact absurd rfl (hround.looked bar rfl).1
        | cons w rest =>
            obtain ⟨v, hv⟩ : ∃ v, x.examine bar set w = .ok v := by
              obtain ⟨finds, hrun⟩ := hfinds set hround.set w (hround.ahead List.mem_cons_self)
              unfold Setting.examine
              split
              · exact ⟨_, SuccessfulRun.bind_eq_ok_iff.2 ⟨finds, hrun, rfl⟩⟩
              · exact ⟨_, rfl⟩
            exact ⟨_, .visit before after set w rest bar v c hrounds hv⟩
    | visited v => exact ⟨_, .handIn before after set ahead v c hrounds⟩

end Crew

end Loadout
