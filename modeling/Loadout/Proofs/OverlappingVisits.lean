import Loadout.Proofs.SuccessfulRun
import Loadout.Search
import Mathlib.Logic.Relation

/-!
# Visits that overlap

In batches the sets of a batch may be shared among workers, one round over the candidates for each
set.  A worker reads the bar, visits the pairing against the bar it has read, and hands in what it
has found; between these steps other workers make theirs.  The sweep set by set is one of these
runs.
-/

namespace Loadout

variable {R : Type} [Reckoning R]

inductive Progress (R : Type) where
  | idle
  | looked (bar : Option R)
  | visited (v : Visit R)

/-- A round over the candidates for one set, with those that have not been visited. -/
structure Round (R : Type) where
  set : ArmourSet
  ahead : List (Candidate R)
  progress : Progress R

/-- The rounds of a batch, and what they hold together. -/
structure Shift (R : Type) where
  rounds : List (Round R)
  held : Held R

namespace Shift

def fresh (candidates : List (Candidate R)) (batch : List ArmourSet) (held : Held R) : Shift R :=
  ⟨batch.map fun set => ⟨set, candidates, .idle⟩, held⟩

def finished (batch : List ArmourSet) (held : Held R) : Shift R :=
  ⟨batch.map fun set => ⟨set, [], .idle⟩, held⟩

inductive Step (x : Setting R) (floor : Option R) : Shift R → Shift R → Prop where
  | look (before after : List (Round R)) (set : ArmourSet) (w : Candidate R)
      (rest : List (Candidate R)) (held : Held R) :
      Step x floor ⟨before ++ ⟨set, w :: rest, .idle⟩ :: after, held⟩
        ⟨before ++ ⟨set, w :: rest, .looked (held.bar floor)⟩ :: after, held⟩
  | visit (before after : List (Round R)) (set : ArmourSet) (w : Candidate R)
      (rest : List (Candidate R)) (held : Held R) (bar : Option R) (v : Visit R)
      (h : x.examine bar set w = .ok v) :
      Step x floor ⟨before ++ ⟨set, w :: rest, .looked bar⟩ :: after, held⟩
        ⟨before ++ ⟨set, rest, .visited v⟩ :: after, held⟩
  | handIn (before after : List (Round R)) (set : ArmourSet) (rest : List (Candidate R))
      (held : Held R) (v : Visit R) :
      Step x floor ⟨before ++ ⟨set, rest, .visited v⟩ :: after, held⟩
        ⟨before ++ ⟨set, rest, .idle⟩ :: after, held.commit v⟩

abbrev Leads (x : Setting R) (floor : Option R) : Shift R → Shift R → Prop :=
  Relation.ReflTransGen (Step x floor)

end Shift

/-- Whether a search in batches may hold something in the end, starting with what is held: each
batch is worked off by rounds that overlap in any way, and the candidates are cut back after it. -/
inductive Setting.MayHold (x : Setting R) :
    List (List ArmourSet) → List (Candidate R) → Held R → Held R → Prop where
  | done (candidates : List (Candidate R)) (held : Held R) : MayHold x [] candidates held held
  | batch (batch : List ArmourSet) (rest : List (List ArmourSet))
      (candidates : List (Candidate R)) (held next last : Held R)
      (h : Shift.Leads x (some sharedFloor) (.fresh candidates batch held) (.finished batch next))
      (hrest : MayHold x rest
        (Candidate.retainAbove ((next.bar (some sharedFloor)).getD sharedFloor) candidates)
        next last) :
      MayHold x (batch :: rest) candidates held last

/-- Whether a search may hold something in the end, in the way that the options ask for. -/
inductive Setting.MayEnd (x : Setting R) (o : SearchOptions) (candidates : List (Candidate R))
    (sets : List ArmourSet) (held : Held R) : Prop where
  | inOrder (ho : o.parallel = false) (h : x.searchInOrder candidates sets = .ok held)
  | inBatches (ho : o.parallel = true)
      (h : x.MayHold (Loadout.inBatches (max o.batches 1) sets) candidates .nothing held)

namespace Shift

variable {x : Setting R} {floor : Option R}

theorem leads_visit (before after : List (Round R)) {set : ArmourSet} {w : Candidate R}
    (rest : List (Candidate R)) {held : Held R} {v : Visit R}
    (h : x.examine (held.bar floor) set w = .ok v) :
    Leads x floor ⟨before ++ ⟨set, w :: rest, .idle⟩ :: after, held⟩
      ⟨before ++ ⟨set, rest, .idle⟩ :: after, held.commit v⟩ := by
  have hlook : Step x floor ⟨before ++ ⟨set, w :: rest, .idle⟩ :: after, held⟩
      ⟨before ++ ⟨set, w :: rest, .looked (held.bar floor)⟩ :: after, held⟩ :=
    .look before after set w rest held
  have hvisit : Step x floor ⟨before ++ ⟨set, w :: rest, .looked (held.bar floor)⟩ :: after, held⟩
      ⟨before ++ ⟨set, rest, .visited v⟩ :: after, held⟩ :=
    .visit before after set w rest held (held.bar floor) v h
  have hhandIn : Step x floor ⟨before ++ ⟨set, rest, .visited v⟩ :: after, held⟩
      ⟨before ++ ⟨set, rest, .idle⟩ :: after, held.commit v⟩ :=
    .handIn before after set rest held v
  exact ((Relation.ReflTransGen.single hlook).tail hvisit).tail hhandIn

theorem leads_round (before after : List (Round R)) {set : ArmourSet}
    {candidates : List (Candidate R)} {held next : Held R}
    (h : candidates.foldlM
      (fun held w => do return held.commit (← x.examine (held.bar floor) set w)) held = .ok next) :
    Leads x floor ⟨before ++ ⟨set, candidates, .idle⟩ :: after, held⟩
      ⟨before ++ ⟨set, [], .idle⟩ :: after, next⟩ := by
  induction candidates generalizing held with
  | nil =>
      cases h
      exact .refl
  | cons w rest ih =>
      obtain ⟨committed, hcommitted, hrest⟩ := SuccessfulRun.bind_eq_ok_iff.1 h
      obtain ⟨v, hv, heq⟩ := SuccessfulRun.bind_eq_ok_iff.1 hcommitted
      cases heq
      exact (leads_visit before after rest hv).trans (ih hrest)

/-- The rounds of a batch may be made one after the other. -/
theorem leads_sweep {candidates : List (Candidate R)} {batch : List ArmourSet}
    {held next : Held R} (h : x.sweep floor candidates batch held = .ok next) :
    Leads x floor (.fresh candidates batch held) (.finished batch next) := by
  have hbatch : ∀ (before : List (Round R)) (batch : List ArmourSet) (held : Held R),
      x.sweep floor candidates batch held = .ok next →
        Leads x floor ⟨before ++ batch.map fun set => ⟨set, candidates, .idle⟩, held⟩
          ⟨before ++ batch.map fun set => ⟨set, [], .idle⟩, next⟩ := by
    intro before batch
    induction batch generalizing before with
    | nil =>
        intro held h
        cases h
        exact .refl
    | cons set rest ih =>
        intro held h
        obtain ⟨middle, hround, hrest⟩ := SuccessfulRun.bind_eq_ok_iff.1 h
        have hfirst := leads_round before (rest.map fun set => ⟨set, candidates, .idle⟩) hround
        have hothers := ih (before ++ [⟨set, [], .idle⟩]) middle hrest
        simp only [List.append_assoc, List.cons_append, List.nil_append] at hothers
        exact hfirst.trans hothers
  exact hbatch [] batch held h

end Shift

namespace Setting

variable {x : Setting R}

theorem mayHold_of_sweepBatches {batches : List (List ArmourSet)}
    {candidates : List (Candidate R)} {held last : Held R}
    (h : x.sweepBatches batches candidates held = .ok last) :
    x.MayHold batches candidates held last := by
  induction batches generalizing candidates held with
  | nil =>
      cases h
      exact .done candidates last
  | cons batch rest ih =>
      obtain ⟨next, hnext, hrest⟩ := SuccessfulRun.bind_eq_ok_iff.1 h
      exact .batch batch rest candidates held next last (Shift.leads_sweep hnext) (ih hrest)

/-- What the sweep holds is what a search may hold. -/
theorem mayEnd_of_sweep {o : SearchOptions} {candidates : List (Candidate R)}
    {sets : List ArmourSet} {held : Held R}
    (h : Request.sweep x o candidates sets = .ok held) : x.MayEnd o candidates sets held := by
  unfold Request.sweep at h
  split at h
  next ho => exact .inBatches ho (mayHold_of_sweepBatches h)
  next ho => exact .inOrder (Bool.eq_false_iff.2 ho) h

end Setting

end Loadout
