import Loadout.Search.Batches
import Loadout.Search.Pairing

/-!
# Sweeping over sets and weapons

A sweep visits every pairing of a set with a candidate, sets first, and holds the best build found
so far, whose effective raw attack is the bar for all further ones.

In order, the candidates are cut back to those whose ceilings exceed the bar whenever it rises;
they stand by descending ceiling, so this takes candidates off the end only and a position among
them keeps its meaning.

In batches, a candidate is skipped if its ceiling does not exceed the bar, and the candidates are
cut back after each batch.  A visit looks at the bar when it begins and hands in what it has found
when it ends, so visits may overlap: a bar that was read earlier is only lower than the present one,
and handing in compares once more with the build then held.
-/

namespace Loadout

/-- The best build found so far, and how many builds have been looked at. -/
structure Held (R : Type) where
  best : Option (Find R)
  evaluated : Nat

structure Visit (R : Type) where
  best : Option (Find R)
  evaluated : Nat

namespace Held

variable {R : Type} [Reckoning R]

def nothing : Held R := ⟨none, 0⟩

/-- What a further build has to exceed: the held build, or a floor while there is none. -/
def bar (floor : Option R) (h : Held R) : Option R :=
  match h.best with
  | some f => some f.effective.raw
  | none => floor

def commit (h : Held R) (v : Visit R) : Held R where
  best :=
    match h.best, v.best with
    -- compared again: the bar that the visit saw may have risen meanwhile
    | some held, some found =>
        if Reckoning.less held.effective.raw found.effective.raw then some found else some held
    | held, found => held.or found
  evaluated := h.evaluated + v.evaluated

end Held

/-- A search in order: the candidates not yet given up, and what is held. -/
structure Hunt (R : Type) where
  candidates : List (Candidate R)
  held : Held R

namespace Hunt

variable {R : Type} [Reckoning R]

/-- Takes notice of the builds of a pairing; a better one than the held one cuts the candidates back
to those that may exceed it. -/
def report (h : Hunt R) (finds : List (Find R)) : Hunt R :=
  let evaluated := h.held.evaluated + finds.length
  match Find.bestAbove (h.held.bar none) finds with
  | some f => ⟨Candidate.retainAbove f.effective.raw h.candidates, ⟨some f, evaluated⟩⟩
  | none => ⟨h.candidates, ⟨h.held.best, evaluated⟩⟩

theorem length_report_le (h : Hunt R) (finds : List (Find R)) :
    (h.report finds).candidates.length ≤ h.candidates.length := by
  unfold report
  cases Find.bestAbove (h.held.bar none) finds with
  | none => exact Nat.le_refl _
  | some f => exact List.length_filter_le _ _

end Hunt

namespace Setting

variable {R : Type} [Reckoning R]

/-- Visits a pairing: skips it, or looks for the best of its builds above the bar. -/
def examine (x : Setting R) (bar : Option R) (set : ArmourSet) (w : Candidate R) :
    Except Fault (Visit R) :=
  if exceeds bar w.ceiling then do
    let finds ← x.finds set w
    return ⟨Find.bestAbove bar finds, finds.length⟩
  else .ok ⟨none, 0⟩

/-- Visits the pairings of sets with candidates one after the other. -/
def sweep (x : Setting R) (floor : Option R) (candidates : List (Candidate R))
    (sets : List ArmourSet) (held : Held R) : Except Fault (Held R) :=
  sets.foldlM
    (fun held set => candidates.foldlM
      (fun held w => do return held.commit (← x.examine (held.bar floor) set w)) held)
    held

/-- Visits the pairings of a set with the candidates from a position on. -/
def huntFrom (x : Setting R) (set : ArmourSet) (position : Nat) (h : Hunt R) :
    Except Fault (Hunt R) :=
  if hposition : position < h.candidates.length then do
    let finds ← x.finds set h.candidates[position]
    huntFrom x set (position + 1) (h.report finds)
  else .ok h
termination_by h.candidates.length - position
decreasing_by
  have := h.length_report_le finds
  omega

/-- Visits the pairings of sets with candidates, until no candidate is left. -/
def hunt (x : Setting R) : List ArmourSet → Hunt R → Except Fault (Hunt R)
  | [], h => .ok h
  | set :: rest, h => do
      let next ← x.huntFrom set 0 h
      if next.candidates.isEmpty then .ok next else hunt x rest next

/-- The best build of all pairings, set by set. -/
def searchInOrder (x : Setting R) (candidates : List (Candidate R)) (sets : List ArmourSet) :
    Except Fault (Held R) := do
  return (← x.hunt sets ⟨candidates, .nothing⟩).held

/-- The bar of a search in batches before anything is found: a build must have some attack. -/
def sharedFloor : R := Reckoning.ofInt 0

/-- Sweeps over one batch of sets after the other, the candidates cut back to those above the bar
after each. -/
def sweepBatches (x : Setting R) :
    List (List ArmourSet) → List (Candidate R) → Held R → Except Fault (Held R)
  | [], _, held => .ok held
  | batch :: rest, candidates, held => do
      let next ← x.sweep (some sharedFloor) candidates batch held
      let bar := (next.bar (some sharedFloor)).getD sharedFloor
      sweepBatches x rest (Candidate.retainAbove bar candidates) next

/-- The best build of all pairings, batch by batch. -/
def searchInBatches (x : Setting R) (batches : Nat) (candidates : List (Candidate R))
    (sets : List ArmourSet) : Except Fault (Held R) :=
  x.sweepBatches (inBatches (max batches 1) sets) candidates .nothing

end Setting

end Loadout
